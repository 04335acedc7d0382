/-!
# Text

Text that is taken apart or compared by character is a list of characters. Here are the numerals that
occur in it, its size, filling up to a width, and the text of a record.
-/

namespace Dcpu16

/-- A text as the list of its characters. -/
abbrev Text := List Char

/-- The hexadecimal digit of the value `n` modulo sixteen. -/
def hexDigit (n : Nat) : Char :=
  let d := n % 16
  Char.ofNat (if d < 10 then 0x30 + d else 0x57 + d)

/-- Exactly `width` hexadecimal digits, the high ones first. -/
def hexDigits : (width n : Nat) → Text
  | 0, _ => []
  | width + 1, n => hexDigits width (n / 16) ++ [hexDigit n]

theorem length_hexDigits (width n : Nat) : (hexDigits width n).length = width := by
  induction width generalizing n with
  | zero => rfl
  | succ k ih => simp [hexDigits, ih]

/-- The decimal numeral of a natural number. -/
def decimal (n : Nat) : Text := Nat.toDigits 10 n

/-- The hexadecimal numeral of a natural number, with zeros in front up to a width. -/
def hexNumeral (width n : Nat) : Text := (Nat.toDigits 16 n).leftpad width '0'

/-- The number of bytes of a text in UTF-8. -/
def utf8Size (t : Text) : Nat := t.foldl (fun n c => n + c.utf8Size) 0

/-- A text filled up with blanks to a width. -/
def padRight (width : Nat) (t : Text) : Text := t.rightpad width ' '

/-- The parts of a text between the characters that are equal to a separator. -/
def splitOn (sep : Char) (t : Text) : List Text := go [] [] t
where
  /-- `part` holds the characters since the last separator, `done` the parts before it, both backwards. -/
  go (part : Text) (done : List Text) : Text → List Text
    | [] => (part.reverse :: done).reverse
    | c :: cs => if c = sep then go [] (part.reverse :: done) cs else go (c :: part) done cs

theorem splitOn_go (sep : Char) (part : Text) (done : List Text) (t : Text) :
    splitOn.go sep part done t = done.reverse ++ (splitOn sep t).modifyHead (part.reverse ++ ·) := by
  induction t generalizing part done with
  | nil => simp [splitOn, splitOn.go]
  | cons c cs ih =>
    simp only [splitOn, splitOn.go]
    split
    · rw [ih, ih]
      simp
    · rw [ih, ih [c]]
      simp [List.modifyHead_modifyHead, Function.comp_def]

/-- A separator starts a new part; another character belongs to the first one. -/
theorem splitOn_cons (sep c : Char) (t : Text) :
    splitOn sep (c :: t) = if c = sep then [] :: splitOn sep t else (splitOn sep t).modifyHead (c :: ·) := by
  rw [splitOn, splitOn.go]
  split
  · rw [splitOn_go]
    cases splitOn sep t <;> rfl
  · rw [splitOn_go]
    rfl

/-- The lines of a text. A line feed ends a line, and a carriage return in front of it does not belong to the line. -/
def lines (t : Text) : List Text :=
  let parts := splitOn '\n' t
  let trimReturn (line : Text) : Text := if line.getLast? = some '\r' then line.dropLast else line
  parts.dropLast.map trimReturn ++ (parts.getLast?.toList.filter (!·.isEmpty))

/-- The text of a record: its name and, in braces, its fields in order. -/
def recordText (name : String) (fields : List (String × String)) : String :=
  name ++ " \x7b " ++ String.intercalate ", " (fields.map fun f => f.1 ++ ": " ++ f.2) ++ " \x7d"

end Dcpu16
