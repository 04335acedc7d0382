import Dcpu16.Image
import Dcpu16.Proofs.Except

/-!
# Images and words

In either byte order images of an even size and lists of words are two forms of the same: an image is read as the words
that are written as it, and as no others (`decode_eq_ok_iff`). Read in the other order, every word has its bytes
exchanged (`decode_encode_other`).
-/

namespace Dcpu16

/-- The word with its bytes exchanged. -/
def Word.swapped (w : Word) : Word := UInt16.ofNat (w.toNat % 0x100 * 0x100 + w.toNat / 0x100)

namespace Image

/-- **An image in a byte order is faithful** to its words. -/
structure Faithful (order : ByteOrder) : Prop where
  isOk_iff (image : List UInt8) : (decode order image).isOk ↔ image.length % 2 = 0
  decode_encode (ws : List Word) : decode order (encode order ws) = .ok ws
  encode_decode {image : List UInt8} (even : image.length % 2 = 0) :
    ∃ ws, decode order image = .ok ws ∧ encode order ws = image
  /-- Read in the other order, each word has its bytes exchanged. -/
  decode_other {other : ByteOrder} (ne : other ≠ order) (ws : List Word) :
    decode other (encode order ws) = .ok (ws.map Word.swapped)

variable {order other : ByteOrder}

/-- The words of an image are written as the image, if nothing of it is dropped. -/
theorem encode_pairs (done : List Word) (image : List UInt8) (even : image.length % 2 = 0) :
    encode order (pairs order done image) = encode order done.reverse ++ image := by
  fun_induction pairs order done image with
  | case1 done x y rest ih =>
    have even : rest.length % 2 = 0 := by
      rw [List.length_cons, List.length_cons] at even
      omega
    rw [ih even]
    simp [encode, bytes_word]
  | case2 rest done short =>
    -- one byte alone would be odd
    rcases rest with _ | ⟨x, _ | ⟨y, rest⟩⟩
    · simp
    · simp at even
    · exact (short x y rest rfl).elim

/-- An image is read as words exactly if they are written as it. -/
theorem decode_eq_ok_iff {image : List UInt8} {ws : List Word} :
    decode order image = .ok ws ↔ image = encode order ws := by
  constructor
  · intro h
    unfold decode at h
    split at h
    · next even =>
      cases h
      rw [encode_pairs [] image even]
      rfl
    · cases h
  · rintro rfl
    exact decode_encode order ws

/-- Every image of an even size is read. -/
theorem isOk_decode_iff {image : List UInt8} : (decode order image).isOk ↔ image.length % 2 = 0 := by
  unfold decode
  split
  · next even => exact iff_of_true rfl even
  · next odd => exact iff_of_false Bool.false_ne_true odd

theorem bytes_swapped (h : other ≠ order) (w : Word) : bytes order w = bytes other w.swapped := by
  have small : w.toNat / 0x100 < 0x100 := Nat.div_lt_of_lt_mul w.toNat_lt
  have size : w.swapped.toNat = w.toNat % 0x100 * 0x100 + w.toNat / 0x100 := by
    rw [Word.swapped, UInt16.toNat_ofNat']
    omega
  have quotient : w.swapped.toNat / 0x100 = w.toNat % 0x100 := by
    rw [size]
    omega
  have high : UInt8.ofNat (w.swapped.toNat / 0x100) = UInt8.ofNat w.toNat := by
    apply UInt8.toNat_inj.mp
    rw [UInt8.toNat_ofNat', UInt8.toNat_ofNat', quotient]
    omega
  have low : UInt8.ofNat w.swapped.toNat = UInt8.ofNat (w.toNat / 0x100) := by
    apply UInt8.toNat_inj.mp
    rw [UInt8.toNat_ofNat', UInt8.toNat_ofNat']
    omega
  cases order with
  | big =>
    cases other with
    | big => exact absurd rfl h
    | little => simp only [bytes, high, low]
  | little =>
    cases other with
    | big => simp only [bytes, high, low]
    | little => exact absurd rfl h

/-- Reading an image in the order in which it was not written exchanges the bytes of every word. -/
theorem decode_encode_other (h : other ≠ order) (ws : List Word) :
    decode other (encode order ws) = .ok (ws.map Word.swapped) := by
  rw [decode_eq_ok_iff, encode, encode, List.flatMap_map]
  exact congrArg (List.flatMap · ws) (funext (bytes_swapped h))

theorem faithful (order : ByteOrder) : Faithful order where
  isOk_iff _ := isOk_decode_iff
  decode_encode := decode_encode order
  encode_decode {image} even := by
    obtain ⟨ws, read⟩ := isOk_iff.mp (isOk_decode_iff.mpr even)
    exact ⟨ws, read, (decode_eq_ok_iff.mp read).symm⟩
  decode_other := decode_encode_other

end Image

end Dcpu16
