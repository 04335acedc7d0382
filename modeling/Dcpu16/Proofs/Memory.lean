import Dcpu16.Memory

/-!
# Images in memory

The memory that holds an image has its words from address zero on and zeros behind them. Blocks of it that lie
inside the image are parts of the image.
-/

namespace Dcpu16

namespace Memory

/-- Addresses below the size of memory are different words if they are different numbers. -/
theorem ofNat_eq_iff {p q : Nat} (hp : p < 0x10000) (hq : q < 0x10000) : UInt16.ofNat p = UInt16.ofNat q ↔ p = q := by
  rw [← UInt16.toNat_inj, UInt16.toNat_ofNat', UInt16.toNat_ofNat', Nat.mod_eq_of_lt hp, Nat.mod_eq_of_lt hq]

theorem ofNat_succ (p : Nat) : UInt16.ofNat p + 1 = UInt16.ofNat (p + 1) := (UInt16.ofNat_add p 1).symm

/-- Words written from an address on are found there, and the rest of memory is as before. -/
theorem read_writeFrom (m : Memory) {start : Nat} {vs : List Word} (h : start + vs.length ≤ 0x10000) {q : Nat}
    (hq : q < 0x10000) :
    (m.writeFrom (UInt16.ofNat start) vs).read (UInt16.ofNat q) =
      if start ≤ q then vs[q - start]?.getD (m.read (UInt16.ofNat q)) else m.read (UInt16.ofNat q) := by
  induction vs generalizing m start with
  | nil => simp [writeFrom]
  | cons v vs ih =>
    rw [List.length_cons] at h
    rw [writeFrom, ofNat_succ, ih _ (by omega)]
    simp only [read_write, ofNat_eq_iff (by omega : start < 0x10000) hq]
    rcases Nat.lt_trichotomy start q with before | rfl | behind
    · have index : q - start = q - (start + 1) + 1 := by omega
      rw [if_pos (by omega), if_neg (by omega), if_pos (by omega), index, List.getElem?_cons_succ]
    · rw [if_neg (by omega), if_pos rfl, if_pos (Nat.le_refl _), Nat.sub_self]
      rfl
    · rw [if_neg (by omega), if_neg (by omega), if_neg (by omega)]

theorem length_le_of_ofImage {image : List Word} {mem : Memory} (h : ofImage image = .ok mem) :
    image.length ≤ 0x10000 := by
  unfold ofImage at h
  split at h <;> cases h
  assumption

theorem read_ofImage {image : List Word} {mem : Memory} (h : ofImage image = .ok mem) {q : Nat} (hq : q < 0x10000) :
    mem.read (UInt16.ofNat q) = image[q]?.getD 0 := by
  unfold ofImage at h
  split at h <;> cases h
  next size =>
    have fits : 0 + image.length ≤ 0x10000 := by rw [Nat.zero_add]; exact size
    have := read_writeFrom blank fits hq
    rwa [if_pos (Nat.zero_le q), Nat.sub_zero, read_blank] at this

theorem read_of_lt {image : List Word} {mem : Memory} (h : ofImage image = .ok mem) {p : Nat} (hp : p < image.length) :
    mem.read (UInt16.ofNat p) = image[p] := by
  have size := length_le_of_ofImage h
  rw [read_ofImage h (by omega), List.getElem?_eq_getElem hp, Option.getD_some]

/-! ## Blocks -/

/-- A block is the word at its address and the block behind it. -/
theorem block_succ (m : Memory) (p : Word) (len : Nat) : m.block p (len + 1) = m.read p :: m.block (p + 1) len := by
  have behind (k : Nat) : p + UInt16.ofNat (k + 1) = p + 1 + UInt16.ofNat k := by
    rw [UInt16.ofNat_add, UInt16.add_comm (UInt16.ofNat k), UInt16.add_assoc]
    rfl
  simp only [block, List.range_succ_eq_map, List.map_cons, List.map_map, Function.comp_def, Nat.succ_eq_add_one,
    behind]
  exact congrArg (m.read · :: _) (UInt16.add_zero p)

/-- A block is a shorter one and the block behind that. -/
theorem block_add (m : Memory) (p : Word) (i j : Nat) :
    m.block p (i + j) = m.block p i ++ m.block (p + UInt16.ofNat i) j := by
  simp [block, List.range_add, UInt16.ofNat_add, UInt16.add_assoc]

/-- A word outside a block does not matter to it. -/
theorem block_write (m : Memory) {p start v : Word} {len : Nat} (outside : ∀ k < len, start + UInt16.ofNat k ≠ p) :
    (m.write p v).block start len = m.block start len := by
  apply List.map_congr_left
  intro k hk
  rw [read_write, if_neg (outside k (List.mem_range.mp hk)).symm]

theorem block_ofImage {image : List Word} {mem : Memory} (h : ofImage image = .ok mem) {p len : Nat}
    (hp : p + len ≤ image.length) : mem.block (UInt16.ofNat p) len = (image.drop p).take len := by
  have size := length_le_of_ofImage h
  apply List.ext_getElem
  · rw [length_block, List.length_take, List.length_drop]
    omega
  · intro k hk _
    rw [length_block] at hk
    have inside : p + k < image.length := by omega
    simp only [block, List.getElem_map, List.getElem_range, ← UInt16.ofNat_add]
    rw [read_ofImage h (by omega), List.getElem?_eq_getElem inside, Option.getD_some, List.getElem_take,
      List.getElem_drop]

/-- A block starts what is left of an image exactly if it lies inside the image. -/
theorem block_append_eq_drop_iff {image : List Word} {mem : Memory} (h : ofImage image = .ok mem) {p : Nat}
    (hp : p ≤ image.length) (len : Nat) (rest : List Word) :
    mem.block (UInt16.ofNat p) len ++ rest = image.drop p ↔
      p + len ≤ image.length ∧ rest = image.drop (p + len) := by
  by_cases inside : p + len ≤ image.length
  · rw [block_ofImage h inside, and_iff_right inside, ← List.drop_drop]
    constructor
    · intro same
      exact List.append_cancel_left (same.trans (List.take_append_drop len (image.drop p)).symm)
    · rintro rfl
      exact List.take_append_drop len _
  · refine iff_of_false (fun same => ?_) fun both => inside both.1
    have lengths := congrArg List.length same
    rw [List.length_append, length_block, List.length_drop] at lengths
    omega

end Memory

end Dcpu16
