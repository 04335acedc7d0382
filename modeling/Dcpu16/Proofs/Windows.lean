import Dcpu16.Proofs.Device.Disk
import Dcpu16.Proofs.Memory
import Mathlib.Algebra.Group.Nat.Defs
import Mathlib.Logic.ExistsUnique

/-!
# Windows into memory and disks

Parts of memory and of disks are lent out to be read and written. A window of memory is lent exactly if it ends inside
of memory, and a sector exactly if the disk has one of its number. What is lent are the words that stand there; writing
them changes no word outside, and so no other window and no other sector (`windows_stay_inside`).

The places of the words are counted in 64 bits. That the end of a window fits is looked at. The end of a sector is taken
as it is, and there is one number under which it does not fit (`Disk.stop_leaves_type`).
-/

namespace Dcpu16

/-- **What is lent of a store**: `len` words from `start` on, exactly if they are `present`. Words that are `put` in
their place are found there, and no other word changes. -/
structure Lends (store : List Word) (start len : Nat) (present : Prop) (lent : Option (List Word))
    (put : List Word → List Word) : Prop where
  isSome : lent.isSome ↔ present
  read {ws : List Word} (h : lent = some ws) : ws.length = len ∧ ∀ k < len, ws[k]? = store[start + k]?
  write (here : present) {vs : List Word} (size : vs.length = len) (k : Nat) :
    (put vs)[k]? = if start ≤ k ∧ k < start + len then vs[k - start]? else store[k]?

section
variable {store : List Word} {start len : Nat} {present : Prop} [Decidable present] {lent : Option (List Word)}
  {put : List Word → List Word}

theorem lends_part (part : lent = if present then some ((store.drop start).take len) else none)
    (inside : present → start + len ≤ store.length)
    (write : present → ∀ {vs : List Word}, vs.length = len → ∀ k,
      (put vs)[k]? = if start ≤ k ∧ k < start + len then vs[k - start]? else store[k]?) :
    Lends store start len present lent put where
  isSome := by simp [part]
  read {ws} h := by
    rw [part] at h
    split at h
    · next here =>
      cases h
      have fits := inside here
      refine ⟨by rw [List.length_take, List.length_drop]; omega, fun k hk => ?_⟩
      rw [List.getElem?_take_of_lt hk, List.getElem?_drop]
    · cases h
  write := write

end

/-! ## Windows of memory -/

namespace Memory

/-- All words of memory in order. -/
def words (m : Memory) : List Word := m.cells.toList

theorem length_words (m : Memory) : m.words.length = 0x10000 := m.cells.length_toList

theorem getElem?_words (m : Memory) {k : Nat} (h : k < 0x10000) : m.words[k]? = some (m.read (UInt16.ofNat k)) := by
  have index : (UInt16.ofNat k).toNat = k := by rw [UInt16.toNat_ofNat', Nat.mod_eq_of_lt h]
  simp [words, read, index, h]

/-- **A window of memory**, as it is lent from `start` on with `len` words. -/
structure LendsWindow (m : Memory) (start : Word) (len : Nat) : Prop extends
    Lends m.words start.toNat len (start.toNat + len ≤ 0x10000) (m.window? start len)
      fun vs => (m.writeFrom start vs).words where
  /-- A window that lies before or behind it keeps its words. -/
  apart (here : start.toNat + len ≤ 0x10000) {vs : List Word} (size : vs.length = len) {other : Word} {width : Nat}
    (disjoint : other.toNat + width ≤ start.toNat ∨ start.toNat + len ≤ other.toNat) :
    (m.writeFrom start vs).window? other width = m.window? other width

section
variable {m : Memory} {start : Word} {len : Nat} {vs : List Word}

theorem block_eq (h : start.toNat + len ≤ 0x10000) : m.block start len = (m.words.drop start.toNat).take len := by
  refine List.ext_getElem? fun k => ?_
  by_cases inside : k < len
  · rw [List.getElem?_take_of_lt inside, List.getElem?_drop, getElem?_words m (by omega), UInt16.ofNat_add,
      UInt16.ofNat_toNat]
    simp [block, inside]
  · rw [List.getElem?_eq_none (by rw [length_block]; omega), List.getElem?_take_eq_none (by omega)]

theorem window?_eq_words (m : Memory) (start : Word) (len : Nat) :
    m.window? start len =
      if start.toNat + len ≤ 0x10000 then some ((m.words.drop start.toNat).take len) else none := by
  rw [window?_eq]
  exact ite_congr rfl (fun inside => congrArg some (block_eq inside)) fun _ => rfl

theorem words_writeFrom (h : start.toNat + vs.length ≤ 0x10000) (k : Nat) :
    (m.writeFrom start vs).words[k]? =
      if start.toNat ≤ k ∧ k < start.toNat + vs.length then vs[k - start.toNat]? else m.words[k]? := by
  by_cases hk : k < 0x10000
  · have word := m.read_writeFrom h hk
    rw [UInt16.ofNat_toNat] at word
    rw [getElem?_words _ hk, getElem?_words _ hk, word]
    rcases Nat.lt_or_ge k start.toNat with before | behind
    · rw [if_neg (by omega), if_neg (by omega)]
    · rw [if_pos behind]
      by_cases within : k < start.toNat + vs.length
      · have present : k - start.toNat < vs.length := by omega
        rw [if_pos ⟨behind, within⟩, List.getElem?_eq_getElem present, Option.getD_some]
      · rw [if_neg (by omega), List.getElem?_eq_none (by omega), Option.getD_none]
  · rw [if_neg (by omega), List.getElem?_eq_none (by rw [length_words]; omega),
      List.getElem?_eq_none (by rw [length_words]; omega)]

theorem window?_writeFrom (h : start.toNat + vs.length ≤ 0x10000) {other : Word} {width : Nat}
    (disjoint : other.toNat + width ≤ start.toNat ∨ start.toNat + vs.length ≤ other.toNat) :
    (m.writeFrom start vs).window? other width = m.window? other width := by
  rw [window?_eq_words, window?_eq_words]
  congr 2
  refine List.ext_getElem? fun k => ?_
  rw [List.getElem?_take, List.getElem?_take, List.getElem?_drop, List.getElem?_drop, words_writeFrom h]
  by_cases inside : k < width
  · rw [if_neg (by omega : ¬ (start.toNat ≤ other.toNat + k ∧ other.toNat + k < start.toNat + vs.length))]
  · rw [if_neg inside, if_neg inside]

theorem lendsWindow (m : Memory) (start : Word) (len : Nat) : m.LendsWindow start len := by
  refine ⟨lends_part (m.window?_eq_words start len) (fun inside => m.length_words ▸ inside) ?_, ?_⟩
  · rintro inside vs rfl k
    exact words_writeFrom inside k
  · rintro inside vs rfl other width disjoint
    exact window?_writeFrom inside disjoint

end

end Memory

/-! ## Sectors of a disk -/

namespace Disk

/-- **A sector of a disk**, as it is lent under its number. -/
structure LendsSector (d : Disk) (n : Nat) : Prop extends
    Lends d.words (512 * n) 512 (n < 1440) (d.sector? n) fun vs => (d.writeSector n vs).words where
  /-- Another sector keeps its words. -/
  apart {vs : List Word} (size : vs.length = 512) {other : Nat} (ne : other ≠ n) :
    (d.writeSector n vs).sector? other = d.sector? other

/-- **Sectors make up a disk**: their words in order are the words of the disk, and each place of a disk lies in one of
them and in no other. -/
structure MadeOfSectors (d : Disk) : Prop where
  length : d.words.length = 1440 * 512
  words : d.words = (List.range 1440).flatMap fun n => (d.sector? n).getD []
  place {k : Nat} (h : k < 1440 * 512) : ∃! n, n < 1440 ∧ 512 * n ≤ k ∧ k < 512 * n + 512

section
variable {d : Disk} {n : Nat}

/-- A sector that is written stands in its place, and all other words of the disk are as before. -/
theorem words_writeSector {vs : List Word} (inside : n < 1440) (size : vs.length = 512) (k : Nat) :
    (d.writeSector n vs).words[k]? =
      if 512 * n ≤ k ∧ k < 512 * n + 512 then vs[k - 512 * n]? else d.words[k]? := by
  have written := d.sector?_writeSector n (k / 512) size
  have word : (d.writeSector n vs).words[k]? = ((d.writeSector n vs).sector? (k / 512)).bind (·[k % 512]?) :=
    getElem?_words ..
  rw [word, written]
  by_cases here : n = k / 512
  · have place : k - 512 * n = k % 512 := by omega
    rw [if_pos ⟨here, inside⟩, if_pos (by omega), place]
    rfl
  · rw [if_neg fun same => here same.1, if_neg (by omega)]
    exact (getElem?_words ..).symm

theorem lendsSector (d : Disk) (n : Nat) : d.LendsSector n := by
  have sector := d.sector?_eq n
  rw [Nat.mul_comm] at sector
  have length : d.words.length = 737280 := d.length_words
  refine ⟨lends_part sector (fun inside => ?_) (fun inside vs size k => words_writeSector inside size k), ?_⟩
  · rw [length]
    omega
  · intro vs size other ne
    rw [sector?_writeSector _ _ _ size, if_neg fun same => ne same.1.symm]

theorem madeOfSectors (d : Disk) : d.MadeOfSectors where
  length := d.length_words
  words := by
    have sectors : (List.range 1440).map (fun n => (d.sector? n).getD []) = d.blocks.toList.map Vector.toList := by
      apply List.ext_getElem
      · rw [List.length_map, List.length_range, List.length_map, Vector.length_toList]
        rfl
      · intro n _ h
        have inside : n < Disk.sectors := by simpa using h
        simp [sector?_eq_block, inside]
    rw [List.flatMap_def, sectors]
    rfl
  place {k} h := ⟨k / 512, ⟨by omega, by omega, by omega⟩, fun n hn => by omega⟩

end

end Disk

/-- **Windows and sectors are parts of their stores**: each is lent exactly if its store has it, with its words, and
changes no other; a disk is made of its sectors. A window is found without a number that leaves its type, and so is a
sector, to be read or written, except under one number. -/
theorem windows_stay_inside (m : Memory) (start : Word) (len : Nat) (d : Disk) (n : Nat) :
    m.LendsWindow start len ∧ d.LendsSector n ∧ d.MadeOfSectors ∧
      d.findSector n = (if n = 2 ^ 55 - 1 then none else some (d.sector? n)) ∧
      ∀ vs, d.setSector n vs = if n = 2 ^ 55 - 1 then none else some (d.writeSector n vs) :=
  ⟨m.lendsWindow start len, d.lendsSector n, d.madeOfSectors, d.findSector_eq n, d.setSector_eq n⟩

/-- The end of this sector is not below `2 ^ 64`, though its number and its start are, so there is no answer, not even
that the disk has no such sector. -/
theorem Disk.stop_leaves_type :
    36028797018963967 < 2 ^ 64 ∧ 36028797018963967 * sectorSize < 2 ^ 64 ∧
      ¬ 36028797018963967 * sectorSize + sectorSize < 2 ^ 64 ∧
      (Disk.blank false).findSector 36028797018963967 = none :=
  ⟨by decide, by decide, by decide, findSector_eq ..⟩

end Dcpu16
