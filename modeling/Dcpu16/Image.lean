import Dcpu16.Word

/-!
# Images

An image holds words as bytes, two to a word and nothing else, in either byte order. Reading an image in the
order in which it was written gives the words back (`decode_encode`).
-/

namespace Dcpu16

/-- Which byte of a word comes first. -/
inductive ByteOrder
  | big | little
  deriving DecidableEq, Repr, Inhabited

namespace Image

/-- The word of two bytes. -/
def word (order : ByteOrder) (first second : UInt8) : Word :=
  match order with
  | .big => UInt16.ofNat (first.toNat * 0x100 + second.toNat)
  | .little => UInt16.ofNat (second.toNat * 0x100 + first.toNat)

/-- The two bytes of a word. -/
def bytes (order : ByteOrder) (w : Word) : List UInt8 :=
  let high := UInt8.ofNat (w.toNat / 0x100)
  let low := UInt8.ofNat w.toNat
  match order with
  | .big => [high, low]
  | .little => [low, high]

theorem word_bytes (order : ByteOrder) (w : Word) : ∃ x y, bytes order w = [x, y] ∧ word order x y = w := by
  have := w.toNat_lt
  cases order <;> refine ⟨_, _, rfl, UInt16.toNat_inj.mp ?_⟩ <;>
    simp only [word, UInt16.toNat_ofNat', UInt8.toNat_ofNat'] <;> omega

theorem bytes_word (order : ByteOrder) (x y : UInt8) : bytes order (word order x y) = [x, y] := by
  have := x.toNat_lt
  have := y.toNat_lt
  cases order <;> simp only [bytes, word, UInt16.toNat_ofNat', List.cons.injEq, and_true] <;>
    constructor <;> apply UInt8.toNat_inj.mp <;> simp only [UInt8.toNat_ofNat'] <;> omega

/-- The words of pairs of bytes behind the words `done`, which stand backwards; a single last byte is
dropped. -/
def pairs (order : ByteOrder) (done : List Word) : List UInt8 → List Word
  | x :: y :: rest => pairs order (word order x y :: done) rest
  | _ => done.reverse

/-- Bytes that make no whole number of words. -/
structure OddLength where
  size : Nat
  deriving DecidableEq, Repr

/-- How an odd number of bytes is reported. -/
def OddLength.message (e : OddLength) : String := s!"image has an odd number of bytes ({e.size})"

/-- The words of an image. -/
def decode (order : ByteOrder) (image : List UInt8) : Except OddLength (List Word) :=
  if image.length % 2 = 0 then .ok (pairs order [] image) else .error ⟨image.length⟩

/-- The image of words. -/
def encode (order : ByteOrder) (ws : List Word) : List UInt8 := ws.flatMap (bytes order)

theorem length_encode (order : ByteOrder) (ws : List Word) : (encode order ws).length = 2 * ws.length := by
  induction ws with
  | nil => rfl
  | cons w ws ih =>
    obtain ⟨x, y, e, -⟩ := word_bytes order w
    have : (bytes order w).length = 2 := by rw [e]; rfl
    simp only [encode, List.flatMap_cons, List.length_append, List.length_cons] at *
    omega

theorem pairs_encode (order : ByteOrder) (done ws : List Word) :
    pairs order done (encode order ws) = done.reverse ++ ws := by
  induction ws generalizing done with
  | nil => simp [encode, pairs]
  | cons w ws ih =>
    obtain ⟨x, y, e, h⟩ := word_bytes order w
    have : encode order (w :: ws) = x :: y :: encode order ws := by simp [encode, e]
    rw [this, pairs, ih, h]
    simp

/-- Reading an image gives back the words that were written. -/
theorem decode_encode (order : ByteOrder) (ws : List Word) : decode order (encode order ws) = .ok ws := by
  simp [decode, length_encode, pairs_encode]

end Image

end Dcpu16
