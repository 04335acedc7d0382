import Dcpu16.Instruction

/-!
# Instruction words

The first word of an instruction is laid out as `aaaaaabbbbbooooo`: a five-bit opcode, the
five-bit destination and the six-bit source. Opcode zero announces a special instruction, whose
opcode stands in the destination field. Some opcodes are reserved. The length of an instruction
can be read off the fields alone, also where the opcode is reserved.
-/

namespace Dcpu16

/-! ## Fields -/

namespace Word

/-- The low five bits: the opcode. -/
def opField (w : Word) : Nat := w.toNat % 0x20

/-- The middle five bits: the destination, or the opcode of a special instruction. -/
def bField (w : Word) : Nat := w.toNat / 0x20 % 0x20

/-- The high six bits: the source. -/
def aField (w : Word) : Nat := w.toNat / 0x400

/-- The word made of three fields. -/
def ofFields (o b a : Nat) : Word := UInt16.ofNat (o + 0x20 * b + 0x400 * a)

theorem opField_lt (w : Word) : w.opField < 0x20 := Nat.mod_lt _ (by decide)

theorem bField_lt (w : Word) : w.bField < 0x20 := Nat.mod_lt _ (by decide)

theorem aField_lt (w : Word) : w.aField < 0x40 := by
  have := w.toNat_lt
  unfold aField; omega

theorem ofFields_fields (w : Word) : ofFields w.opField w.bField w.aField = w := by
  have := w.toNat_lt
  apply UInt16.toNat_inj.mp
  simp only [ofFields, opField, bField, aField, UInt16.toNat_ofNat']
  omega

theorem fields_ofFields {o b a : Nat} (ho : o < 0x20) (hb : b < 0x20) (ha : a < 0x40) :
    (ofFields o b a).opField = o ∧ (ofFields o b a).bField = b ∧ (ofFields o b a).aField = a := by
  simp only [ofFields, opField, bField, aField, UInt16.toNat_ofNat']
  omega

/-- Whether an operand of this code takes a next word. -/
def codeTakesWord (code : Nat) : Bool := (0x10 ≤ code && code < 0x18) || code == 0x1a || code == 0x1e || code == 0x1f

/-- The length in words of the instruction that starts with a word. -/
def instructionLength (w : Word) : Nat :=
  1 + (codeTakesWord w.aField).toNat + if w.opField = 0 then 0 else (codeTakesWord w.bField).toNat

/-- Whether a word starts an instruction that skips the next one when its test fails. -/
def isConditional (w : Word) : Bool := 0x10 ≤ w.opField && w.opField ≤ 0x17

theorem instructionLength_pos (w : Word) : 0 < w.instructionLength := by
  unfold instructionLength; omega

theorem instructionLength_le (w : Word) : w.instructionLength ≤ 3 := by
  have h (b : Bool) : b.toNat ≤ 1 := by cases b <;> decide
  have ha := h (codeTakesWord w.aField)
  have hb := h (codeTakesWord w.bField)
  unfold instructionLength; split <;> omega

end Word

/-! ## Decoding and encoding -/

/-- A word whose opcode is reserved. -/
inductive DecodeError
  | reserved (word : Word)
  | reservedSpecial (word : Word)
  deriving DecidableEq, Repr, Inhabited

/-- How a reserved opcode is reported. -/
def DecodeError.message : DecodeError → String
  | .reserved w => report "opcode" w.opField w
  | .reservedSpecial w => report "special opcode" w.bField w
where
  report (kind : String) (opcode : Nat) (w : Word) : String :=
    "reserved " ++ kind ++ " 0x" ++ String.ofList (hexDigits 2 opcode) ++ " in word " ++ String.ofList w.numeral

namespace Instruction

/-- The instruction that starts with a word. -/
def decode (w : Word) : Except DecodeError Instruction :=
  let a := Operand.source w.aField
  if w.opField = 0 then
    match SpecialOp.ofCode? w.bField with
    | some op => .ok (.special op a)
    | none => .error (.reservedSpecial w)
  else
    match BasicOp.ofCode? w.opField with
    | some op => .ok (.basic op (Operand.destination w.bField) a)
    | none => .error (.reserved w)

/-- The first word of an instruction. Of the destination only the low five bits are kept. -/
def encode : Instruction → Word
  | .basic op b a => Word.ofFields op.code (b.code % 0x20) a.code
  | .special op a => Word.ofFields 0 op.code a.code

end Instruction

end Dcpu16
