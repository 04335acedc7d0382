import Dcpu16.Assembly.Statement
import Dcpu16.Instruction.Encoding

/-!
# Assembly

From a program text to its words, in two passes. The first lays the lines out: it places words and
references to labels one behind the other and notes the address of each label. A reference always takes
one word, so no address depends on a label's value, and the second pass puts the addresses in.
-/

namespace Dcpu16

/-- A word of a program, or the place of a label's address, referred to in a line. -/
inductive Cell
  | word (w : Word)
  | reference (label : Text) (line : Nat)
  deriving DecidableEq, Repr, Inhabited

/-- The place of a value. Labels are told apart in upper case. -/
def Value.cell (line : Nat) : Value → Cell
  | number w => .word w
  | label name => .reference (upper name) line

/-- A program as far as it has been laid out. -/
structure Layout where
  cells : Array Cell := #[]
  /-- The labels so far in upper case, each with its address. -/
  symbols : List (Text × Word) := []
  deriving Repr, Inhabited

namespace Layout

/-- The address of the next word. -/
def address (l : Layout) : Word := UInt16.ofNat l.cells.size

/-- Appends cells. -/
def append (l : Layout) (cells : List Cell) : Layout := { l with cells := l.cells ++ cells }

/-- Gives a label the address of the next word. -/
def define (l : Layout) (name : Text) : Except Problem Layout :=
  if !isName name then .error (.malformed (.labelName name))
  else if (l.symbols.lookup (upper name)).isSome then .error (.duplicateLabel name)
  else .ok { l with symbols := (upper name, l.address) :: l.symbols }

/-- Places a statement. The next word of a source stands before that of the destination. -/
def place (l : Layout) (line : Nat) : Statement → Except Problem Layout
  | .data values => .ok (l.append (values.map (·.cell line)))
  | .origin target =>
    if target.toNat < l.cells.size then .error (.malformed (.originBehind target l.address))
    else .ok (l.append (List.replicate (target.toNat - l.cells.size) (.word 0)))
  | .basic op b a =>
    let next := (a.next.toList ++ b.next.toList).map (·.cell line)
    .ok (l.append (.word (Instruction.basic op b.form a.form).encode :: next))
  | .special op a =>
    let next := a.next.toList.map (·.cell line)
    .ok (l.append (.word (Instruction.special op a.form).encode :: next))

/-- Lays out a line: its labels, then its statement. -/
def addLine (l : Layout) (line : Nat) (t : Text) : Except Problem Layout := do
  let (names, statement) := splitLine t
  let l ← names.foldlM define l
  if statement.isEmpty then return l
  else l.place line (← Statement.parse statement)

/-- Lays out lines, of which the first has the number `line`. -/
def addLines (l : Layout) (line : Nat) : List Text → Except AssemblyError Layout
  | [] => .ok l
  | t :: ts =>
    match l.addLine line t with
    | .ok l => l.addLines (line + 1) ts
    | .error p => .error (.inLine line p)

/-- The word of a cell. -/
def resolve (symbols : List (Text × Word)) : Cell → Except AssemblyError Word
  | .word w => .ok w
  | .reference label line =>
    match symbols.lookup label with
    | some p => .ok p
    | none => .error (.inLine line (.undefinedLabel label))

end Layout

/-- The words of a program text. -/
def assemble (source : Text) : Except AssemblyError (List Word) := do
  let l ← Layout.addLines {} 1 (splitLines source)
  if Word.count < l.cells.size then throw (.tooLarge l.cells.size)
  else l.cells.toList.mapM (Layout.resolve l.symbols)

end Dcpu16
