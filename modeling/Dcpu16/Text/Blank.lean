import Dcpu16.Text

/-!
# Blanks

The characters that separate words of a text, and taking them off its ends.
-/

namespace Dcpu16

/-- Whether a character has the Unicode property `White_Space`. -/
def isBlank (c : Char) : Bool :=
  let n := c.toNat
  (0x09 ≤ n && n ≤ 0x0d) || n == 0x20 || n == 0x85 || n == 0xa0 || n == 0x1680 || (0x2000 ≤ n && n ≤ 0x200a) ||
    n == 0x2028 || n == 0x2029 || n == 0x202f || n == 0x205f || n == 0x3000

theorem isBlank_of_isWhitespace {c : Char} (h : c.isWhitespace) : isBlank c := by
  simp only [Char.isWhitespace, Bool.or_eq_true, decide_eq_true_eq] at h
  obtain ((rfl | rfl) | rfl) | rfl := h <;> decide

/-- A text without the blanks in front. -/
def trimLeft (t : Text) : Text := t.dropWhile isBlank

/-- A text without the blanks at either end. -/
def trim (t : Text) : Text := (trimLeft (trimLeft t).reverse).reverse

/-- The text up to the first blank, and the text from there on. -/
def breakAtBlank (t : Text) : Text × Text := (t.takeWhile (!isBlank ·), t.dropWhile (!isBlank ·))

theorem breakAtBlank_append (t : Text) : (breakAtBlank t).1 ++ (breakAtBlank t).2 = t :=
  List.takeWhile_append_dropWhile

end Dcpu16
