import Dcpu16.Device.Disk

/-!
# The words of a disk

The words of a disk are those of its sectors in order: each word stands in one sector (`Disk.getElem?_words`), a sector
is a part of the words (`Disk.sector?_eq`), and an image of a disk is the disk again (`Disk.ofImage_words`).
-/

namespace Dcpu16

/-! ## Blocks in a row -/

section
variable {α : Type} {m n : Nat}

theorem flatMap_toList (blocks : Vector (Vector α n) m) :
    blocks.toList.flatMap Vector.toList = blocks.flatten.toList := by
  obtain ⟨blocks, size⟩ := blocks
  rw [Vector.flatten_mk, List.flatMap]
  simp only [Vector.toList, Array.toList_flatten, Array.toList_map, List.map_map]
  rfl

/-- What blocks hold in a row gives the blocks, cut into pieces of their size. -/
theorem ofFn_toList_flatten (blocks : Vector (Vector α n) m) (x : α) :
    (Vector.ofFn fun i : Fin m => Vector.ofFn fun k : Fin n => blocks.flatten.toList.toArray.getD (i * n + k) x) =
      blocks := by
  refine Vector.ext fun i hi => Vector.ext fun k hk => ?_
  have inside : i * n + k < m * n := by
    calc i * n + k < i * n + n := Nat.add_lt_add_left hk _
      _ = (i + 1) * n := (Nat.succ_mul i n).symm
      _ ≤ m * n := Nat.mul_le_mul_right n hi
  have quotient : (i * n + k) / n = i := by
    rw [Nat.add_comm, Nat.add_mul_div_right _ _ (Nat.zero_lt_of_lt hk), Nat.div_eq_of_lt hk, Nat.zero_add]
  simp [Array.getD, inside, Vector.getElem_flatten, quotient, Nat.mod_eq_of_lt hk]

end

/-! ## Words and sectors -/

namespace Disk

theorem words_eq (d : Disk) : d.words = d.blocks.flatten.toList := flatMap_toList d.blocks

theorem length_words (d : Disk) : d.words.length = capacity := by
  rw [words_eq, Vector.length_toList, capacity_eq]

/-- The words of a disk are an image of it. -/
theorem ofImage_words (d : Disk) (writeProtected : Bool) :
    ofImage d.words writeProtected = .ok { d with writeProtected } := by
  rw [ofImage, if_pos (Nat.le_of_eq d.length_words)]
  dsimp only
  rw [words_eq, ofFn_toList_flatten]

/-- A word of a disk stands in one of its sectors. -/
theorem getElem?_words (d : Disk) (k : Nat) :
    d.words[k]? = (d.sector? (k / sectorSize)).bind (·[k % sectorSize]?) := by
  by_cases inside : k < capacity
  · have sector : k / sectorSize < sectors := Nat.div_lt_of_lt_mul (Nat.mul_comm sectors sectorSize ▸ inside)
    have place : k % sectorSize < sectorSize := Nat.mod_lt k (by decide)
    rw [List.getElem?_eq_getElem (d.length_words ▸ inside)]
    simp [words_eq, sector?_eq_block, sector, place, Vector.getElem_flatten]
  · have sector : ¬ k / sectorSize < sectors := fun h => inside (Nat.lt_mul_of_div_lt h (by decide))
    rw [List.getElem?_eq_none (d.length_words ▸ Nat.le_of_not_lt inside)]
    simp [sector?_eq_block, sector]

/-- A sector is the part of the words that starts behind the sectors before it. -/
theorem sector?_eq (d : Disk) (n : Nat) :
    d.sector? n = if n < sectors then some ((d.words.drop (n * sectorSize)).take sectorSize) else none := by
  split
  · next inside =>
    obtain ⟨ws, sector⟩ := Option.isSome_iff_exists.mp ((d.sector?_isSome_iff n).mpr inside)
    have length := length_sector sector
    rw [sector]
    congr 1
    refine List.ext_getElem? fun i => ?_
    by_cases place : i < sectorSize
    · have quotient : (n * sectorSize + i) / sectorSize = n := by
        rw [Nat.add_comm, Nat.add_mul_div_right _ _ (by decide), Nat.div_eq_of_lt place, Nat.zero_add]
      have rest : (n * sectorSize + i) % sectorSize = i := by
        rw [Nat.add_comm, Nat.add_mul_mod_self_right, Nat.mod_eq_of_lt place]
      rw [List.getElem?_take_of_lt place, List.getElem?_drop, getElem?_words, quotient, rest, sector]
      rfl
    · have behind : sectorSize ≤ i := Nat.le_of_not_lt place
      rw [List.getElem?_eq_none (length ▸ behind), List.getElem?_take_eq_none behind]
  · next outside => simpa [sector?_eq_block] using outside

end Disk

end Dcpu16
