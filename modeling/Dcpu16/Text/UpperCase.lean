import Dcpu16.Text

/-!
# Upper case

The upper-case form of a text where it consists of ASCII characters. Names are compared in this form: two
texts that differ in it name different things.
-/

namespace Dcpu16

/-- The Unicode upper-case form of a character if that form is ASCII. Apart from the ASCII letters, these
are the dotless i, the long s, the sharp s and the Latin ligatures; other characters stay as they are. -/
def upperChar (c : Char) : Text :=
  match c.toNat with
  | 0x00df => ['S', 'S']
  | 0x0131 => ['I']
  | 0x017f => ['S']
  | 0xfb00 => ['F', 'F']
  | 0xfb01 => ['F', 'I']
  | 0xfb02 => ['F', 'L']
  | 0xfb03 => ['F', 'F', 'I']
  | 0xfb04 => ['F', 'F', 'L']
  | 0xfb05 => ['S', 'T']
  | 0xfb06 => ['S', 'T']
  | _ => [c.toUpper]

/-- The upper-case form of a text. -/
def upper (t : Text) : Text := t.flatMap upperChar

/-- The upper-case form of a text in which only the ASCII letters change. -/
def upperAscii (t : Text) : Text := t.map Char.toUpper

end Dcpu16
