import Dcpu16.Width
import Dcpu16.Word

/-!
# Memory

The address space of `2 ^ 16` words. Every word is an address, so reading and writing cannot fail;
what can fail is loading an image that is too large, and taking a window that runs past the end.
-/

namespace Dcpu16

/-- The random access memory: a word at every address. -/
structure Memory where
  cells : Vector Word 0x10000
  deriving DecidableEq

namespace Memory

/-- Memory that holds only zeros. -/
def blank : Memory := ⟨Vector.replicate 0x10000 0⟩

instance : Inhabited Memory := ⟨blank⟩

/-- The word at an address. -/
def read (m : Memory) (p : Word) : Word :=
  have := p.toNat_lt
  m.cells[p.toNat]

/-- The memory with another word at an address. -/
def write (m : Memory) (p v : Word) : Memory := ⟨m.cells.set p.toNat v p.toNat_lt⟩

theorem read_blank (p : Word) : blank.read p = 0 := by
  simp [blank, read]

theorem read_write (m : Memory) (p q v : Word) :
    (m.write p v).read q = if p = q then v else m.read q := by
  have h : p.toNat = q.toNat ↔ p = q := UInt16.toNat_inj
  simp only [read, write, Vector.getElem_set, h]

/-- Two memories with the same word at every address are equal. -/
theorem ext_read {m n : Memory} (h : ∀ p, m.read p = n.read p) : m = n := by
  obtain ⟨u⟩ := m
  obtain ⟨v⟩ := n
  congr 1
  apply Vector.ext
  intro k hk
  have := h (UInt16.ofNat k)
  simpa [read, Nat.mod_eq_of_lt hk] using this

/-! ## Blocks of words -/

/-- Writes words from an address upwards; past the end of memory this goes on at address zero. -/
def writeFrom (m : Memory) (start : Word) : List Word → Memory
  | [] => m
  | v :: vs => (m.write start v).writeFrom (start + 1) vs

/-- The `len` words from an address upwards, wrapping at the end of memory. -/
def block (m : Memory) (start : Word) (len : Nat) : List Word :=
  (List.range len).map fun k => m.read (start + UInt16.ofNat k)

/-- The `len` words from an address upwards, if they all lie before the end of memory. That the place where they stop
fits into 64 bits is looked at, and there is no window if it does not. -/
def window? (m : Memory) (start : Word) (len : Nat) : Option (List Word) :=
  match Width.unsigned 64 (start.toNat + len) with
  | some stop => if stop ≤ Word.count then some (m.block start (stop - start.toNat)) else none
  | none => none

theorem window?_eq (m : Memory) (start : Word) (len : Nat) :
    m.window? start len = if start.toNat + len ≤ Word.count then some (m.block start len) else none := by
  unfold window? Width.unsigned
  by_cases fits : start.toNat + len < Width.limit 64
  · simp only [if_pos fits, Nat.add_sub_cancel_left]
  · have outside : ¬ start.toNat + len ≤ Word.count := fun inside =>
      fits (Nat.lt_of_le_of_lt inside (by decide))
    simp only [if_neg fits, if_neg outside]

theorem window?_eq_none_iff (m : Memory) (start : Word) (len : Nat) :
    m.window? start len = none ↔ Word.count < start.toNat + len := by
  rw [window?_eq]
  split <;> simp <;> omega

theorem length_block (m : Memory) (start : Word) (len : Nat) : (m.block start len).length = len := by
  simp [block]

/-- An image that has more words than the address space. -/
structure Overflow where
  size : Nat
  deriving DecidableEq, Repr

/-- How an image that is too large is reported. -/
def Overflow.message (e : Overflow) : String :=
  s!"image of {e.size} words exceeds the {Word.count}-word address space"

/-- The memory that holds an image from address zero and zeros behind it. -/
def ofImage (image : List Word) : Except Overflow Memory :=
  if image.length ≤ Word.count then .ok (blank.writeFrom 0 image) else .error ⟨image.length⟩

/-- How many words are not zero. -/
def nonzero (m : Memory) : Nat := m.cells.countP (· ≠ 0)

/-- A memory as a record that only counts its words. -/
def text (m : Memory) : String :=
  recordText "Memory" [("non_zero_words", toString m.nonzero), ("total_words", toString Word.count)]

end Memory

end Dcpu16
