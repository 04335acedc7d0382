import Dcpu16.Width
import Mathlib.Algebra.Group.Nat.Defs

/-!
# Numbers that fit into integer types

A number that is small enough is itself in an integer type. So is a difference that is not negative, and a number of
bits to shift by that is less than the width.
-/

namespace Dcpu16

namespace Width

/-- The difference of two numbers without a sign. -/
def difference (m n : Nat) : Checked Nat := if n ≤ m then some (m - n) else none

/-- By how many bits a number is shifted. -/
def shift (bits amount : Nat) : Checked Nat := if amount < bits then some amount else none

variable {bits m n k : Nat} {i : Int}

theorem limit_eq (bits : Nat) : limit bits = 2 ^ bits := rfl

theorem unsigned_eq (h : n < 2 ^ bits) : unsigned bits n = some n := if_pos h

theorem signed_eq (h : i.natAbs < 2 ^ (bits - 1)) : signed bits i = some i := by
  rw [← limit_eq] at h
  exact if_pos ⟨by omega, by omega⟩

theorem difference_eq (h : n ≤ m) : difference m n = some (m - n) := if_pos h

theorem shift_eq (h : k < bits) : shift bits k = some k := if_pos h

end Width

end Dcpu16
