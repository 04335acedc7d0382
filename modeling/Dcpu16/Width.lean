/-!
# Integer types

Numbers are counted without bounds here. Where they are meant for an integer type, its width is looked at: a number that
leaves the type is an overflow, which ends the program, and a result that depends on it is nothing.
-/

namespace Dcpu16

/-- A result, or nothing if a number leaves its type on the way to it. -/
abbrev Checked (α : Type) := Option α

namespace Width

/-- The first number that does not fit into so many bits. -/
def limit (bits : Nat) : Nat := Nat.pow 2 bits

/-- A number in an integer type without a sign. -/
def unsigned (bits n : Nat) : Checked Nat := if n < limit bits then some n else none

/-- A number in an integer type with a sign. -/
def signed (bits : Nat) (n : Int) : Checked Int :=
  if -(limit (bits - 1) : Int) ≤ n ∧ n < limit (bits - 1) then some n else none

end Width

end Dcpu16
