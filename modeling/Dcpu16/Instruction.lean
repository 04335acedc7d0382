import Dcpu16.Register

/-!
# Instructions

An instruction has an operation and one operand (special instructions) or two (basic ones). An
operand names a place; the forms with a next word take one more word from the program, which is
not part of the operand itself. Operations come with their code, mnemonic and cost.
-/

namespace Dcpu16

/-! ## Operands -/

/-- An operand form. -/
inductive Operand
  | register (r : Register) | indirect (r : Register)
  /-- The memory word at register plus next word. -/
  | indirectOffset (r : Register)
  /-- The memory word below the stack; a destination only. -/
  | push
  /-- The memory word on top of the stack, which is dropped; a source only. -/
  | pop
  | peek
  /-- The memory word at SP plus next word. -/
  | pick
  | sp | pc | ex
  /-- The memory word at the next word. -/
  | indirectNext
  /-- The next word itself. -/
  | next
  /-- A value inside the instruction word; a source only. -/
  | literal (v : Word)
  deriving DecidableEq, Repr, Inhabited

namespace Operand

/-- The code of an operand form in an instruction word. -/
def code : Operand → Nat
  | .register r => r.code
  | .indirect r => 0x08 + r.code
  | .indirectOffset r => 0x10 + r.code
  | .push | .pop => 0x18
  | .peek => 0x19
  | .pick => 0x1a
  | .sp => 0x1b
  | .pc => 0x1c
  | .ex => 0x1d
  | .indirectNext => 0x1e
  | .next => 0x1f
  | .literal v => (v.toNat + 0x21) % 0x40

/-- The form of a code that means the same in both positions. -/
def ofSharedCode (code : Nat) : Operand :=
  if code < 0x08 then .register (.ofCode code)
  else if code < 0x10 then .indirect (.ofCode code)
  else if code < 0x18 then .indirectOffset (.ofCode code)
  else match code with
    | 0x19 => .peek
    | 0x1a => .pick
    | 0x1b => .sp
    | 0x1c => .pc
    | 0x1d => .ex
    | 0x1e => .indirectNext
    | _ => .next

/-- The source operand of a code, of which the low six bits count. -/
def source (code : Nat) : Operand :=
  let code := code % 0x40
  if code = 0x18 then .pop
  else if code < 0x20 then ofSharedCode code
  else .literal (UInt16.ofNat code - 0x21)

/-- The destination operand of a code, of which the low five bits count. -/
def destination (code : Nat) : Operand :=
  let code := code % 0x20
  if code = 0x18 then .push else ofSharedCode code

/-- The literal of a value, if it is small enough to stand inside an instruction word. -/
def shortLiteral? (v : Word) : Option Operand := if v = 0xffff ∨ v ≤ 30 then some (.literal v) else none

/-- Whether an operand takes a next word, which costs a cycle. -/
def takesWord : Operand → Bool
  | .indirectOffset _ | .pick | .indirectNext | .next => true
  | _ => false

/-- How many next words an operand takes. -/
def extraWords (o : Operand) : Nat := o.takesWord.toNat

theorem code_lt (o : Operand) : o.code < 0x40 := by
  cases o <;> simp only [code]
  case literal => exact Nat.mod_lt _ (by decide)
  case register r | indirect r | indirectOffset r => have := r.code_lt; omega
  all_goals decide

end Operand

/-! ## Operations -/

/-- An operation with two operands. -/
inductive BasicOp
  | set | add | sub | mul | mli | div | dvi | mod | mdi | and | bor | xor | shr | asr | shl
  | ifb | ifc | ife | ifn | ifg | ifa | ifl | ifu | adx | sbx | sti | std
  deriving DecidableEq, Repr, Inhabited

namespace BasicOp

/-- The operations in the order of their codes. -/
def all : List BasicOp :=
  [set, add, sub, mul, mli, div, dvi, mod, mdi, and, bor, xor, shr, asr, shl,
    ifb, ifc, ife, ifn, ifg, ifa, ifl, ifu, adx, sbx, sti, std]

/-- The code of an operation. -/
def code : BasicOp → Nat
  | set => 0x01 | add => 0x02 | sub => 0x03 | mul => 0x04 | mli => 0x05 | div => 0x06 | dvi => 0x07
  | mod => 0x08 | mdi => 0x09 | and => 0x0a | bor => 0x0b | xor => 0x0c | shr => 0x0d | asr => 0x0e
  | shl => 0x0f | ifb => 0x10 | ifc => 0x11 | ife => 0x12 | ifn => 0x13 | ifg => 0x14 | ifa => 0x15
  | ifl => 0x16 | ifu => 0x17 | adx => 0x1a | sbx => 0x1b | sti => 0x1e | std => 0x1f

/-- The operation of a code, unless the code is reserved. -/
def ofCode? : Nat → Option BasicOp
  | 0x01 => some set | 0x02 => some add | 0x03 => some sub | 0x04 => some mul | 0x05 => some mli
  | 0x06 => some div | 0x07 => some dvi | 0x08 => some mod | 0x09 => some mdi | 0x0a => some and
  | 0x0b => some bor | 0x0c => some xor | 0x0d => some shr | 0x0e => some asr | 0x0f => some shl
  | 0x10 => some ifb | 0x11 => some ifc | 0x12 => some ife | 0x13 => some ifn | 0x14 => some ifg
  | 0x15 => some ifa | 0x16 => some ifl | 0x17 => some ifu | 0x1a => some adx | 0x1b => some sbx
  | 0x1e => some sti | 0x1f => some std
  | _ => none

theorem ofCode?_code (op : BasicOp) : ofCode? op.code = some op := by cases op <;> rfl

theorem code_of_ofCode? {n : Nat} {op : BasicOp} (h : ofCode? n = some op) : op.code = n := by
  unfold ofCode? at h
  split at h <;> cases h <;> rfl

/-- The cost in cycles, without next words and skipped instructions. -/
def cycles : BasicOp → Nat
  | set | and | bor | xor | shr | asr | shl => 1
  | add | sub | mul | mli | sti | std | ifb | ifc | ife | ifn | ifg | ifa | ifl | ifu => 2
  | div | dvi | mod | mdi | adx | sbx => 3

/-- The name of an operation in programs. -/
def mnemonic : BasicOp → String
  | set => "SET" | add => "ADD" | sub => "SUB" | mul => "MUL" | mli => "MLI" | div => "DIV" | dvi => "DVI"
  | mod => "MOD" | mdi => "MDI" | and => "AND" | bor => "BOR" | xor => "XOR" | shr => "SHR" | asr => "ASR"
  | shl => "SHL" | ifb => "IFB" | ifc => "IFC" | ife => "IFE" | ifn => "IFN" | ifg => "IFG" | ifa => "IFA"
  | ifl => "IFL" | ifu => "IFU" | adx => "ADX" | sbx => "SBX" | sti => "STI" | std => "STD"

/-- The operation of a mnemonic, in either case. -/
def ofMnemonic? (name : Text) : Option BasicOp := all.find? (·.mnemonic.toList = name.map Char.toUpper)

theorem ofMnemonic?_mnemonic (op : BasicOp) : ofMnemonic? op.mnemonic.toList = some op := by
  cases op <;> decide

/-- The operations that skip the next instruction when their test fails. -/
def isConditional : BasicOp → Bool
  | ifb | ifc | ife | ifn | ifg | ifa | ifl | ifu => true
  | _ => false

end BasicOp

/-- An operation with one operand. -/
inductive SpecialOp
  /-- Pushes PC and jumps. -/
  | jsr
  /-- Raises an interrupt. -/
  | int
  /-- Reads IA. -/
  | iag
  /-- Sets IA. -/
  | ias
  /-- Returns from an interrupt: queueing off, pops A, pops PC. -/
  | rfi
  /-- Turns the queueing of interrupts on or off. -/
  | iaq
  /-- Counts the attached devices. -/
  | hwn
  /-- Asks a device for its identity. -/
  | hwq
  /-- Sends an interrupt to a device. -/
  | hwi
  deriving DecidableEq, Repr, Inhabited

namespace SpecialOp

/-- The operations in the order of their codes. -/
def all : List SpecialOp := [jsr, int, iag, ias, rfi, iaq, hwn, hwq, hwi]

/-- The code of an operation. -/
def code : SpecialOp → Nat
  | jsr => 0x01 | int => 0x08 | iag => 0x09 | ias => 0x0a | rfi => 0x0b | iaq => 0x0c
  | hwn => 0x10 | hwq => 0x11 | hwi => 0x12

/-- The operation of a code, unless the code is reserved. -/
def ofCode? : Nat → Option SpecialOp
  | 0x01 => some jsr | 0x08 => some int | 0x09 => some iag | 0x0a => some ias | 0x0b => some rfi
  | 0x0c => some iaq | 0x10 => some hwn | 0x11 => some hwq | 0x12 => some hwi
  | _ => none

theorem ofCode?_code (op : SpecialOp) : ofCode? op.code = some op := by cases op <;> rfl

theorem code_of_ofCode? {n : Nat} {op : SpecialOp} (h : ofCode? n = some op) : op.code = n := by
  unfold ofCode? at h
  split at h <;> cases h <;> rfl

/-- The cost in cycles, without the next word. -/
def cycles : SpecialOp → Nat
  | iag | ias => 1
  | iaq | hwn => 2
  | jsr | rfi => 3
  | int | hwq | hwi => 4

/-- The name of an operation in programs. -/
def mnemonic : SpecialOp → String
  | jsr => "JSR" | int => "INT" | iag => "IAG" | ias => "IAS" | rfi => "RFI" | iaq => "IAQ"
  | hwn => "HWN" | hwq => "HWQ" | hwi => "HWI"

/-- The operation of a mnemonic, in either case. -/
def ofMnemonic? (name : Text) : Option SpecialOp := all.find? (·.mnemonic.toList = name.map Char.toUpper)

theorem ofMnemonic?_mnemonic (op : SpecialOp) : ofMnemonic? op.mnemonic.toList = some op := by
  cases op <;> decide

end SpecialOp

/-! ## Instructions -/

/-- An instruction, without its next words. -/
inductive Instruction
  | basic (op : BasicOp) (b a : Operand)
  | special (op : SpecialOp) (a : Operand)
  deriving DecidableEq, Repr, Inhabited

namespace Instruction

/-- The next words of an instruction. -/
def extraWords : Instruction → Nat
  | .basic _ b a => b.extraWords + a.extraWords
  | .special _ a => a.extraWords

/-- The length in words. -/
def size (i : Instruction) : Nat := 1 + i.extraWords

/-- The cost in cycles, without next words and skipped instructions. -/
def cycles : Instruction → Nat
  | .basic op _ _ => op.cycles
  | .special op _ => op.cycles

/-- Without skipped instructions an instruction costs a few cycles. -/
theorem charge_le (i : Instruction) : i.cycles + i.extraWords ≤ 5 := by
  have word (o : Operand) : o.extraWords ≤ 1 := Bool.toNat_le _
  have special (op : SpecialOp) : op.cycles ≤ 4 := by cases op <;> decide
  have basic (op : BasicOp) : op.cycles ≤ 3 := by cases op <;> decide
  cases i with
  | basic op b a => exact Nat.add_le_add (basic op) (Nat.add_le_add (word b) (word a))
  | special op a => exact Nat.add_le_add (special op) (word a)

end Instruction

end Dcpu16
