import Dcpu16.Word

/-!
# Registers

The eight general registers that operands can name, and the register file, which adds the
program counter, the stack pointer, the excess register and the interrupt address.
-/

namespace Dcpu16

/-- A general register. -/
inductive Register
  | a | b | c | x | y | z | i | j
  deriving DecidableEq, Repr, Inhabited

namespace Register

/-- The registers in the order of their codes. -/
def all : List Register := [a, b, c, x, y, z, i, j]

/-- The number of a register in operand codes. -/
def code : Register → Nat
  | a => 0 | b => 1 | c => 2 | x => 3 | y => 4 | z => 5 | i => 6 | j => 7

/-- The register of a number, of which the low three bits count. -/
def ofCode (n : Nat) : Register :=
  match n % 8 with
  | 0 => a | 1 => b | 2 => c | 3 => x | 4 => y | 5 => z | 6 => i | _ => j

theorem code_lt (r : Register) : r.code < 8 := by cases r <;> decide

theorem ofCode_code (r : Register) : ofCode r.code = r := by cases r <;> rfl

theorem code_ofCode (n : Nat) : (ofCode n).code = n % 8 := by
  have h : ∀ k < 8, (ofCode k).code = k := by decide
  have e : ofCode n = ofCode (n % 8) := by simp [ofCode]
  rw [e, h _ (Nat.mod_lt _ (by decide))]

/-- The letter that names a register. -/
def letter : Register → Char
  | a => 'A' | b => 'B' | c => 'C' | x => 'X' | y => 'Y' | z => 'Z' | i => 'I' | j => 'J'

/-- The register of a name, in either case. -/
def ofName? : Text → Option Register
  | [ch] => all.find? (·.letter = ch.toUpper)
  | _ => none

theorem ofName?_letter (r : Register) : ofName? [r.letter] = some r := by cases r <;> rfl

end Register

/-! ## The register file -/

/-- The register file. The stack grows downwards, and an interrupt address of zero means that
interrupts are ignored. -/
structure Registers where
  a : Word := 0
  b : Word := 0
  c : Word := 0
  x : Word := 0
  y : Word := 0
  z : Word := 0
  i : Word := 0
  j : Word := 0
  pc : Word := 0
  sp : Word := 0
  ex : Word := 0
  ia : Word := 0
  deriving DecidableEq, Repr, Inhabited

namespace Registers

/-- The value of a general register. -/
def get (s : Registers) : Register → Word
  | .a => s.a | .b => s.b | .c => s.c | .x => s.x | .y => s.y | .z => s.z | .i => s.i | .j => s.j

/-- The register file with another value in a general register. -/
def set (s : Registers) (r : Register) (v : Word) : Registers :=
  match r with
  | .a => { s with a := v }
  | .b => { s with b := v }
  | .c => { s with c := v }
  | .x => { s with x := v }
  | .y => { s with y := v }
  | .z => { s with z := v }
  | .i => { s with i := v }
  | .j => { s with j := v }

theorem get_set (s : Registers) (r q : Register) (v : Word) :
    (s.set r v).get q = if r = q then v else s.get q := by
  cases r <;> cases q <;> rfl

/-- Moves PC on by `n` words. -/
def advance (s : Registers) (n : Word) : Registers := { s with pc := s.pc + n }

/-- Moves SP down by a word; the new SP is the address to push to. -/
def pushed (s : Registers) : Registers := { s with sp := s.sp - 1 }

/-- Moves SP up by a word; the old SP is the address to pop from. -/
def popped (s : Registers) : Registers := { s with sp := s.sp + 1 }

theorem popped_pushed (s : Registers) : s.pushed.popped = s := by
  cases s; simp [pushed, popped]

/-- The register file with its names, each value as four hexadecimal digits. -/
def text (s : Registers) : String :=
  let item (name : String) (v : Word) := name ++ "=" ++ String.ofList v.hex
  String.intercalate " " [item "A" s.a, item "B" s.b, item "C" s.c, item "X" s.x, item "Y" s.y, item "Z" s.z,
    item "I" s.i, item "J" s.j, item "PC" s.pc, item "SP" s.sp, item "EX" s.ex, item "IA" s.ia]

end Registers

end Dcpu16
