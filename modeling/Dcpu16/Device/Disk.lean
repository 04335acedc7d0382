import Dcpu16.Memory

/-!
# Disks

A disk of 1440 sectors of 512 words, with a tab that protects it from being written. A disk image is
the words of all sectors in order; a shorter image is filled up with zeros. Writing a full sector changes that
sector and no other (`sector?_writeSector`).

A sector is found by the places of its words, which are counted in 64 bits. For one number the count leaves them
(`locate_eq`); no word is that number.
-/

namespace Dcpu16

namespace Disk

/-- Words in a sector. -/
def sectorSize : Nat := 512

/-- Sectors that the head reaches without moving. -/
def sectorsPerTrack : Nat := 18

/-- Tracks on a disk. -/
def tracks : Nat := 80

/-- Sectors on a disk. -/
def sectors : Nat := 1440

/-- Words on a disk. -/
def capacity : Nat := 737280

end Disk

/-- A disk: the words of every sector. -/
structure Disk where
  blocks : Vector (Vector Word Disk.sectorSize) Disk.sectors
  writeProtected : Bool := false
  deriving DecidableEq

namespace Disk

theorem capacity_eq : capacity = sectors * sectorSize := rfl

/-- All words of a disk, sector after sector. -/
def words (d : Disk) : List Word := d.blocks.toList.flatMap Vector.toList

/-- The block of a sector, if the disk has a sector of this number. That the place where it starts fits into 64 bits is
looked at, but the place where it stops is taken as it is. -/
def locate (n : Nat) : Checked (Option Nat) :=
  match Width.unsigned 64 (n * sectorSize) with
  | none => some none
  | some start => (Width.unsigned 64 (start + sectorSize)).map fun stop =>
    if stop ≤ capacity then some (start / sectorSize) else none

/-- The words of a sector, if the disk has a sector of this number. -/
def findSector (d : Disk) (n : Nat) : Checked (Option (List Word)) :=
  (locate n).map (·.bind fun k => d.blocks[k]?.map Vector.toList)

/-- The words of a sector, if it is found. -/
def sector? (d : Disk) (n : Nat) : Option (List Word) := (d.findSector n).join

/-- The block with other words from an index upwards; what runs past its end is dropped. -/
def overwrite (block : Vector Word sectorSize) (k : Nat) : List Word → Vector Word sectorSize
  | [] => block
  | v :: vs => overwrite (block.setIfInBounds k v) (k + 1) vs

/-- The disk with other words at the start of a block, if it has this block. -/
def overwriteBlock (d : Disk) (k : Nat) (ws : List Word) : Disk :=
  match d.blocks[k]? with
  | some block => { d with blocks := d.blocks.setIfInBounds k (overwrite block 0 ws) }
  | none => d

/-- The disk with other words at the start of a sector, if it has a sector of this number. -/
def setSector (d : Disk) (n : Nat) (ws : List Word) : Checked Disk :=
  (locate n).map (·.elim d fun k => d.overwriteBlock k ws)

/-- The disk with other words at the start of a sector, if it is found. -/
def writeSector (d : Disk) (n : Nat) (ws : List Word) : Disk := (d.setSector n ws).getD d

/-! ## Finding sectors -/

/-- A sector is found by its number, and only one number makes a place leave 64 bits: the start fits, and the stop does
not. -/
theorem locate_eq (n : Nat) :
    locate n = if n = 0x7fffffffffffff then none else some (if n < sectors then some n else none) := by
  have limit : Width.limit 64 = 0x10000000000000000 := rfl
  have size : sectorSize = 512 := rfl
  have last : sectors = 1440 := rfl
  have words : capacity = 737280 := rfl
  unfold locate Width.unsigned
  rw [limit, size, last, words]
  by_cases product : n * 512 < 0x10000000000000000
  · simp only [if_pos product]
    by_cases sum : n * 512 + 512 < 0x10000000000000000
    · rw [if_pos sum, if_neg (by omega), Option.map_some, Nat.mul_div_cancel n (by decide)]
      exact congrArg some (ite_congr (propext (by omega)) (fun _ => rfl) fun _ => rfl)
    · rw [if_neg sum, if_pos (by omega), Option.map_none]
  · simp only [if_neg product]
    rw [if_neg (by omega), if_neg (by omega)]

theorem join_locate (n : Nat) : (locate n).join = if n < sectors then some n else none := by
  rw [locate_eq]
  split
  · next unfit =>
    have outside : ¬ n < sectors := unfit ▸ by decide
    rw [if_neg outside]
    rfl
  · rfl

theorem findSector_eq (d : Disk) (n : Nat) :
    d.findSector n = if n = 0x7fffffffffffff then none else some (d.sector? n) := by
  rw [sector?, findSector, locate_eq]
  split <;> rfl

theorem setSector_eq (d : Disk) (n : Nat) (ws : List Word) :
    d.setSector n ws = if n = 0x7fffffffffffff then none else some (d.writeSector n ws) := by
  rw [writeSector, setSector, locate_eq]
  split <;> rfl

theorem sector?_eq_block (d : Disk) (n : Nat) : d.sector? n = d.blocks[n]?.map Vector.toList := by
  have found : d.sector? n = (locate n).join.bind fun k => d.blocks[k]?.map Vector.toList := by
    rw [sector?, findSector]
    cases locate n <;> rfl
  rw [found, join_locate]
  split
  · rfl
  · next outside => rw [Vector.getElem?_eq_none (Nat.le_of_not_lt outside)]; rfl

theorem writeSector_eq_overwriteBlock (d : Disk) (n : Nat) (ws : List Word) :
    d.writeSector n ws = d.overwriteBlock n ws := by
  have found : d.writeSector n ws = (locate n).join.elim d fun k => d.overwriteBlock k ws := by
    rw [writeSector, setSector]
    cases locate n <;> rfl
  rw [found, join_locate]
  split
  · rfl
  · next outside => rw [overwriteBlock, Vector.getElem?_eq_none (Nat.le_of_not_lt outside)]; rfl

theorem sector?_isSome_iff (d : Disk) (n : Nat) : (d.sector? n).isSome ↔ n < sectors := by
  simp [sector?_eq_block]

theorem length_sector {d : Disk} {n : Nat} {ws : List Word} (h : d.sector? n = some ws) : ws.length = sectorSize := by
  rw [sector?_eq_block] at h
  obtain ⟨block, _, rfl⟩ := Option.map_eq_some_iff.mp h
  simp

/-! ## Writing sectors -/

theorem getElem_overwrite (block : Vector Word sectorSize) (k : Nat) (ws : List Word) (i : Nat) (h : i < sectorSize) :
    (overwrite block k ws)[i] = if k ≤ i then ws.getD (i - k) block[i] else block[i] := by
  induction ws generalizing block k with
  | nil => simp [overwrite]
  | cons v vs ih =>
    rw [overwrite, ih, Vector.getElem_setIfInBounds]
    rcases Nat.lt_trichotomy k i with hk | rfl | hk
    · have e : i - k = i - (k + 1) + 1 := by omega
      have hk' : k + 1 ≤ i := hk
      simp [Nat.ne_of_lt hk, Nat.le_of_lt hk, hk', e]
    · have : ¬ k + 1 ≤ k := by omega
      simp [this]
    · have h1 : ¬ k ≤ i := by omega
      have h2 : ¬ k + 1 ≤ i := by omega
      simp [h1, h2, Nat.ne_of_gt hk]

theorem toList_overwrite (block : Vector Word sectorSize) {ws : List Word} (h : ws.length = sectorSize) :
    (overwrite block 0 ws).toList = ws := by
  apply List.ext_getElem
  · simp [h]
  · intro i h1 h2
    have hi : i < sectorSize := by omega
    simp [getElem_overwrite block 0 ws i hi, h2]

/-- A full sector that was written is read back, and no other sector changes. -/
theorem sector?_writeSector (d : Disk) (n m : Nat) {ws : List Word} (h : ws.length = sectorSize) :
    (d.writeSector n ws).sector? m = if n = m ∧ n < sectors then some ws else d.sector? m := by
  rw [writeSector_eq_overwriteBlock, sector?_eq_block, sector?_eq_block]
  by_cases hn : n < sectors
  · by_cases e : n = m
    · subst e
      simp [overwriteBlock, hn, toList_overwrite _ h]
    · simp [overwriteBlock, hn, e]
  · simp [overwriteBlock, hn]

/-! ## Images -/

/-- A disk that holds only zeros. -/
def blank (writeProtected : Bool) : Disk := ⟨.replicate sectors (.replicate sectorSize 0), writeProtected⟩

/-- An image that has more words than a disk. -/
structure Overflow where
  size : Nat
  deriving DecidableEq, Repr

/-- How an image that is too large is reported. -/
def Overflow.message (e : Overflow) : String :=
  s!"disk image of {e.size} words exceeds the {capacity}-word disk"

/-- The disk of an image. -/
def ofImage (image : List Word) (writeProtected : Bool) : Except Overflow Disk :=
  if image.length ≤ capacity then
    let cells := image.toArray
    .ok ⟨.ofFn fun n => .ofFn fun k => cells.getD (n * sectorSize + k) 0, writeProtected⟩
  else .error ⟨image.length⟩

/-- How many words are not zero. -/
def nonzero (d : Disk) : Nat := d.blocks.foldl (fun sum block => sum + block.countP (· ≠ 0)) 0

/-- A disk as a record that only counts its words. -/
def text (d : Disk) : String :=
  recordText "FloppyDisk"
    [("write_protected", toString d.writeProtected), ("nonzero_words", toString d.nonzero)]

end Disk

end Dcpu16
