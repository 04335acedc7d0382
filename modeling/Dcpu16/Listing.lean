import Dcpu16.Instruction.Encoding
import Dcpu16.Memory

/-!
# Listing

Instructions as text, in the form that the assembler reads. A word with a reserved opcode is shown as
data, together with the next words that its operand fields announce. A program text has one instruction a
line; the listing of an image adds the address and the words of each line.
-/

namespace Dcpu16

/-! ## Instructions -/

/-- The text of an operand; `w` is its next word if it takes one. -/
def Operand.text (o : Operand) (w : Word) : Text :=
  match o with
  | .register r => [r.letter]
  | .indirect r => ['[', r.letter, ']']
  | .indirectOffset r => '[' :: r.letter :: ' ' :: '+' :: ' ' :: w.numeral ++ [']']
  | .push => "PUSH".toList
  | .pop => "POP".toList
  | .peek => "PEEK".toList
  | .pick => "PICK ".toList ++ w.numeral
  | .sp => "SP".toList
  | .pc => "PC".toList
  | .ex => "EX".toList
  | .indirectNext => '[' :: w.numeral ++ [']']
  | .next => w.numeral
  | .literal v => if v = 0xffff then ['-', '1'] else decimal v.toNat

/-- The text of an instruction with its next words, of which the source has the first; missing ones are
zero. -/
def Instruction.text (i : Instruction) (next : List Word) : Text :=
  match i with
  | .basic op b a =>
    op.mnemonic.toList ++ ' ' :: b.text ((next.drop a.extraWords).headD 0) ++ ',' :: ' ' :: a.text (next.headD 0)
  | .special op a => op.mnemonic.toList ++ ' ' :: a.text (next.headD 0)

/-- Words as a data statement. -/
def dataText (ws : List Word) : Text :=
  "DAT ".toList ++ [',', ' '].intercalate (ws.map Word.numeral)

/-- The text of an instruction word with its next words. -/
def wordsText (w : Word) (next : List Word) : Text :=
  match Instruction.decode w with
  | .ok i => i.text next
  | .error _ => dataText (w :: next)

/-- The text and the length of the instruction at an address. -/
def Memory.lineAt (mem : Memory) (p : Word) : Text × Nat :=
  let w := mem.read p
  (wordsText w (mem.block (p + 1) (w.instructionLength - 1)), w.instructionLength)

/-- The instructions from an address on: addresses and texts of `n` of them. -/
def Memory.linesFrom (mem : Memory) (p : Word) : (n : Nat) → List (Word × Text)
  | 0 => []
  | n + 1 =>
    let (text, length) := mem.lineAt p
    (p, text) :: mem.linesFrom (p + UInt16.ofNat length) n

/-! ## Program texts -/

/-- The texts of the instructions that start before `size`, one behind the other from address `p` on; `done`
holds the texts before them, backwards. -/
def Memory.walk (mem : Memory) (size p : Nat) (done : List Text) : List Text :=
  if p < size then
    let line := mem.lineAt (UInt16.ofNat p)
    mem.walk size (p + line.2) (line.1 :: done)
  else done.reverse
termination_by size - p
decreasing_by
  have := Word.instructionLength_pos (mem.read (UInt16.ofNat p))
  simp only [Memory.lineAt]
  omega

/-- The program text of the first `size` words of memory: one instruction a line. -/
def Memory.source (mem : Memory) (size : Nat) : Text := ['\n'].intercalate (mem.walk size 0 [])

/-! ## Images -/

namespace Listing

/-- A line of a listing. -/
structure Line where
  address : Nat
  words : List Word
  text : Text
  deriving Repr, Inhabited

/-- The line of an instruction word, of which `next` are the next words that the image has. If it has too
few, the line shows data. -/
def line (address : Nat) (w : Word) (next : List Word) : Line where
  address
  words := w :: next
  text := if next.length + 1 < w.instructionLength then dataText (w :: next) else wordsText w next

/-- The lines of the words of an image from an address on, behind the lines `done`, which stand backwards. -/
def lines (address : Nat) (done : List Line) : List Word → List Line
  | [] => done.reverse
  | w :: ws =>
    let next := ws.take (w.instructionLength - 1)
    lines (address + 1 + next.length) (line address w next :: done) (ws.drop (w.instructionLength - 1))
termination_by ws => ws.length
decreasing_by simp only [List.length_drop, List.length_cons]; omega

/-- A line as it is written. -/
def Line.written (l : Line) : Text :=
  hexNumeral 4 l.address ++ ':' :: ' ' :: padRight 28 l.text ++ ' ' :: ';' :: ' ' ::
    [' '].intercalate (l.words.map Word.hex) ++ ['\n']

end Listing

/-- The listing of an image. -/
def listing (image : List Word) : Text :=
  "; DCPU-16 Disassembly\n; -------------------\n\n".toList ++ (Listing.lines 0 [] image).flatMap Listing.Line.written

end Dcpu16
