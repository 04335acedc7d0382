import Dcpu16.Assembly.Argument
import Dcpu16.Core

/-!
# What the text of an operand denotes

The place that an operand means, read off its text and the registers alone: no operand form, next word or instruction
word is spoken of here. Labels mean the addresses that a table gives them.
-/

namespace Dcpu16

section
variable (symbols : List (Text × Word))

/-- The word that a value stands for, unless it is a label without an address. -/
def Value.word? : Value → Option Word
  | number w => some w
  | label name => symbols.lookup (upper name)

end

/-- The word that a register in a sum stands for. -/
def Argument.Base.word (regs : Registers) : Base → Word
  | register r => regs.get r
  | sp => regs.sp

namespace Meaning

variable (symbols : List (Text × Word)) (pos : Position) (regs : Registers)

/-- The word of a number or of a label's name. -/
def word? (t : Text) : Option Word :=
  match Numeral.number? (trim t) with
  | none => none
  | some (some n) => some (.ofInt n)
  | some none => symbols.lookup (upper (trim t))

/-- The word of a term of a sum: the value of a register or of SP, or a word of its own. -/
def term? (t : Text) : Option Word :=
  match Argument.Base.ofName? t with
  | some b => some (b.word regs)
  | none => word? symbols t

/-- Terms added to a word, or subtracted from it. -/
def sum? (w : Word) : List (Bool × Text) → Option Word
  | [] => some w
  | (negative, t) :: ts => (term? symbols regs t).bind fun v => sum? (if negative then w - v else w + v) ts

/-- The place that a text in brackets denotes: the memory word at a sum. SP with a double minus is below the stack
and a destination only, SP with a double plus is on top of the stack and a source only. -/
def memory? (inner : Text) : Option Location :=
  let packed := upper ((trim inner).filter (!isBlank ·))
  if packed = "--SP".toList ∧ pos = .destination then some (.memory (regs.sp - 1))
  else if packed = "SP++".toList ∧ pos = .source then some (.memory regs.sp)
  else if packed = "SP".toList then some (.memory regs.sp)
  else (sum? symbols regs 0 (Argument.terms (trim inner))).map .memory

/-- The place that a name denotes, if it is a register or a place on the stack. -/
def name? (t : Text) : Option Location :=
  let name := upperAscii t
  if name = "PUSH".toList ∧ pos = .destination then some (.memory (regs.sp - 1))
  else if name = "POP".toList ∧ pos = .source then some (.memory regs.sp)
  else if name = "PEEK".toList then some (.memory regs.sp)
  else if name = "SP".toList then some .sp
  else if name = "PC".toList then some .pc
  else if name = "EX".toList then some .ex
  else (Register.ofName? t).map .register

/-- **The place that the text of an operand denotes.** A word that stands alone denotes itself. -/
def place? (t : Text) : Option Location :=
  match Argument.bracketed? (trim t) with
  | some inner => memory? symbols pos regs inner
  | none =>
    (name? pos regs (trim t)).or <|
      match Argument.picked? (trim t) with
      | some rest => (word? symbols rest).map fun v => .memory (regs.sp + v)
      | none => (word? symbols (trim t)).map .literal

end Meaning

end Dcpu16
