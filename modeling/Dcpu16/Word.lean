import Dcpu16.Text

/-!
# Words

The sixteen-bit words of the machine, their signed reading, and the hexadecimal numerals in which
they are shown.
-/

namespace Dcpu16

/-- A word: sixteen bits, with arithmetic that wraps. -/
abbrev Word := UInt16

namespace Word

/-- The number of words: the size of the address space. -/
def count : Nat := 0x10000

/-- The two's complement reading of a word. -/
def signed (w : Word) : Int := if w.toNat < 0x8000 then w.toNat else w.toNat - 0x10000

/-- The word congruent to an integer modulo `2 ^ 16`. -/
def ofInt (n : Int) : Word := UInt16.ofNat (n % 0x10000).toNat

theorem toNat_ofInt (n : Int) : ((ofInt n).toNat : Int) = n % 0x10000 := by
  simp only [ofInt, UInt16.toNat_ofNat']
  omega

theorem signed_modEq (w : Word) : w.signed % 0x10000 = w.toNat := by
  have := w.toNat_lt
  unfold signed; split <;> omega

theorem ofInt_signed (w : Word) : ofInt w.signed = w := by
  apply UInt16.toNat_inj.mp
  have h := toNat_ofInt w.signed
  rw [signed_modEq] at h
  omega

/-- The high and the low word of a double word. -/
def split (n : Nat) : Word × Word := (UInt16.ofNat (n / 0x10000), UInt16.ofNat n)

end Word

/-! ## Numerals -/

/-- The four hexadecimal digits of a word. -/
def Word.hex (w : Word) : Text := hexDigits 4 w.toNat

/-- The hexadecimal numeral of a word: `0x` and four digits. -/
def Word.numeral (w : Word) : Text := '0' :: 'x' :: w.hex

end Dcpu16
