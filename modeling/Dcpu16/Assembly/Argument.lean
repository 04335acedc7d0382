import Dcpu16.Assembly.Value
import Dcpu16.Instruction
import Dcpu16.Text.UpperCase

/-!
# Arguments

An argument of an instruction in a program text: the operand form and the value of its next word. In
brackets stands a sum of at most one register and one value.
-/

namespace Dcpu16

/-- An operand as written. -/
structure Argument where
  form : Operand
  /-- The next word, for the forms that take one. -/
  next : Option Value := none
  deriving DecidableEq, Repr

/-- Which operand an argument is. -/
inductive Position
  | source | destination
  deriving DecidableEq, Repr

namespace Argument

/-! ## Sums in brackets -/

/-- Splits a sum at its signs into terms, each with whether it is subtracted. A sign in front of a term is
part of the term, except that a single term loses its minus. -/
def terms (t : Text) : List (Bool × Text) := go false [] [] t
where
  /-- `term` holds the characters since the last sign, `done` the terms before it, both backwards. -/
  go (negative : Bool) (term : Text) (done : List (Bool × Text)) : Text → List (Bool × Text)
    | [] =>
      match done, trim term.reverse with
      | [], '-' :: rest => [(true, trim rest)]
      | _, last => ((negative, last) :: done).reverse
    | c :: cs =>
      if (c = '+' || c = '-') && !term.all isBlank then go (c = '-') [] ((negative, trim term.reverse) :: done) cs
      else go negative (c :: term) done cs

/-- A register in a sum. -/
inductive Base
  | register (r : Register)
  | sp
  deriving DecidableEq, Repr

/-- The register of a name, or SP. -/
def Base.ofName? (t : Text) : Option Base :=
  if upper t = "SP".toList then some .sp else (Register.ofName? t).map .register

/-- What has been read of a sum. -/
structure AddressSum where
  base : Option Base := none
  value : Option Value := none
  deriving DecidableEq, Repr

/-- Adds a term to what has been read; `inner` is the text of the whole sum. -/
def AddressSum.add (inner : Text) (s : AddressSum) (negative : Bool) (term : Text) : Except Problem AddressSum :=
  let refuse := .error (.malformed (.memoryOperand inner))
  match Base.ofName? term with
  | some b => if negative || s.base.isSome then refuse else .ok { s with base := some b }
  | none =>
    if s.value.isSome then refuse
    else
      match Value.parse term with
      | .error e => .error e
      | .ok (.number n) => .ok { s with value := some (.number (if negative then -n else n)) }
      | .ok (.label name) => if negative then refuse else .ok { s with value := some (.label name) }

/-- The argument that a sum in brackets stands for. -/
def AddressSum.argument? : AddressSum → Option Argument
  | ⟨some .sp, none⟩ => some { form := .peek }
  | ⟨some .sp, some v⟩ => some { form := .pick, next := some v }
  | ⟨some (.register r), none⟩ => some { form := .indirect r }
  | ⟨some (.register r), some v⟩ => some { form := .indirectOffset r, next := some v }
  | ⟨none, some v⟩ => some { form := .indirectNext, next := some v }
  | ⟨none, none⟩ => none

/-- Reads what stands in brackets. -/
def parseMemory (pos : Position) (inner : Text) : Except Problem Argument :=
  let inner := trim inner
  let packed := upper (inner.filter (!isBlank ·))
  if packed = "--SP".toList ∧ pos = .destination then .ok { form := .push }
  else if packed = "SP++".toList ∧ pos = .source then .ok { form := .pop }
  else if packed = "SP".toList then .ok { form := .peek }
  else do
    let sum ← (terms inner).foldlM (fun s term => AddressSum.add inner s term.1 term.2) {}
    match sum.argument? with
    | some a => .ok a
    | none => .error (.malformed (.memoryOperand inner))

/-! ## Arguments -/

/-- What stands between brackets, if a text starts and ends with them. -/
def bracketed? : Text → Option Text
  | '[' :: rest => if rest.getLast? = some ']' then some rest.dropLast else none
  | _ => none

/-- The argument that is one name, apart from values: a register or the stack. -/
def named (pos : Position) (t : Text) : Except Problem (Option Argument) :=
  let name := upperAscii t
  if name = "PUSH".toList then
    if pos = .source then .error (.malformed (.pushAsSource t)) else .ok (some { form := .push })
  else if name = "POP".toList then
    if pos = .destination then .error (.malformed (.popAsDestination t)) else .ok (some { form := .pop })
  else if name = "PEEK".toList then .ok (some { form := .peek })
  else if name = "SP".toList then .ok (some { form := .sp })
  else if name = "PC".toList then .ok (some { form := .pc })
  else if name = "EX".toList then .ok (some { form := .ex })
  else .ok ((Register.ofName? t).map fun r => { form := .register r })

/-- The text behind `PICK` and a blank. -/
def picked? (t : Text) : Option Text :=
  let rest := t.drop 4
  if upperAscii (t.take 4) = "PICK".toList ∧ rest.head?.any isBlank then some rest else none

/-- The argument of a value that stands alone. A source that is small enough becomes a literal. -/
def ofValue (pos : Position) (v : Value) : Argument :=
  match pos, v with
  | .source, .number n =>
    match Operand.shortLiteral? n with
    | some form => { form }
    | none => { form := .next, next := some v }
  | _, _ => { form := .next, next := some v }

/-- Reads an argument. -/
def parse (pos : Position) (t : Text) : Except Problem Argument :=
  let t := trim t
  match bracketed? t with
  | some inner => parseMemory pos inner
  | none => do
    match ← named pos t with
    | some a => .ok a
    | none =>
      match picked? t with
      | some rest => return { form := .pick, next := some (← Value.parse rest) }
      | none => return ofValue pos (← Value.parse t)

end Argument

end Dcpu16
