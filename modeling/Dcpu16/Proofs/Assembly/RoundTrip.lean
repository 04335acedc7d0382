import Dcpu16.Proofs.Assembly.Passes
import Dcpu16.Proofs.Assembly.PrintedLines
import Dcpu16.Proofs.Memory

/-!
# Program texts are assembled again

The program text of an image in memory is assembled to the image exactly if the walk through it ends at the end of
the image and meets no instruction that is read with a literal in place of its next word (`assemble_source_iff`).
-/

namespace Dcpu16

/-! ## Lines without labels -/

namespace Layout

/-- Lines that place words and nothing else place them one behind the other. -/
theorem addLines_map {α : Type} {text : α → Text} {words : α → List Word} {qs : List α}
    (h : ∀ q ∈ qs, ∀ (l : Layout) line, l.addLine line (text q) = .ok (l.append ((words q).map .word)))
    (l : Layout) (line : Nat) :
    l.addLines line (qs.map text) = .ok (l.append ((qs.flatMap words).map .word)) := by
  induction qs generalizing l line with
  | nil => exact congrArg Except.ok (append_nil l).symm
  | cons q qs ih =>
    rw [List.map_cons, addLines, h q (List.mem_cons_self ..)]
    simp only
    rw [ih fun r hr => h r (List.mem_cons_of_mem _ hr), append_append, List.flatMap_cons, List.map_append]

theorem addLine_nil (l : Layout) (line : Nat) : l.addLine line [] = .ok l := by
  have split : splitLine [] = ([], []) := splitLabels_of_takeLabel? rfl
  rw [addLine, split]
  rfl

end Layout

/-- A text of lines that place words and nothing else is assembled to these words, if they fit into memory. -/
theorem assemble_lines {α : Type} {text : α → Text} {words : α → List Word} {qs : List α}
    (h : ∀ q ∈ qs, ∀ (l : Layout) line, l.addLine line (text q) = .ok (l.append ((words q).map .word)))
    (single : ∀ q ∈ qs, '\n' ∉ text q) :
    assemble (['\n'].intercalate (qs.map text)) =
      if Word.count < (qs.flatMap words).length then .error (.tooLarge (qs.flatMap words).length)
      else .ok (qs.flatMap words) := by
  have laidOut : Layout.addLines {} 1 (splitLines (['\n'].intercalate (qs.map text))) =
      .ok (Layout.append {} ((qs.flatMap words).map .word)) := by
    by_cases hq : qs = []
    · subst hq
      have lines : splitLines (['\n'].intercalate (([] : List α).map text)) = [[]] := rfl
      rw [lines, Layout.addLines, Layout.addLine_nil]
      rfl
    · rw [splitLines, splitOn_intercalate (by simpa using hq) (List.forall_mem_map.mpr single)]
      exact Layout.addLines_map h {} 1
  have cells : (Layout.append {} ((qs.flatMap words).map .word)).cells.toList = (qs.flatMap words).map .word :=
    Layout.toList_append {} _
  have size : (Layout.append {} ((qs.flatMap words).map .word)).cells.size = (qs.flatMap words).length := by
    rw [← Array.length_toList, cells, List.length_map]
  rw [assemble, laidOut]
  simp only [bind, Except.bind, size, cells, Layout.mapM_resolve_words]
  rfl

namespace Memory

/-! ## The walk -/

/-- The addresses of the instructions that the walk from `p` on meets below `size`, as numbers that do not wrap. -/
def starts (mem : Memory) (size p : Nat) : List Nat :=
  if p < size then p :: mem.starts size (p + (mem.lineAt (UInt16.ofNat p)).2) else []
termination_by size - p
decreasing_by
  have := Word.instructionLength_pos (mem.read (UInt16.ofNat p))
  simp only [lineAt]
  omega

/-- Where the walk from `p` on ends: the first address in it that is not below `size`. -/
def finish (mem : Memory) (size p : Nat) : Nat :=
  if p < size then mem.finish size (p + (mem.lineAt (UInt16.ofNat p)).2) else p
termination_by size - p
decreasing_by
  have := Word.instructionLength_pos (mem.read (UInt16.ofNat p))
  simp only [lineAt]
  omega

/-- The texts of the walk are those at its addresses. -/
theorem walk_eq (mem : Memory) (size p : Nat) (done : List Text) :
    mem.walk size p done = done.reverse ++ (mem.starts size p).map fun q => (mem.lineAt (UInt16.ofNat q)).1 := by
  fun_induction walk mem size p done with
  | case1 p done hp line ih =>
    rw [ih, starts.eq_1 mem size p, if_pos hp]
    simp [line]
  | case2 p done hp =>
    rw [starts, if_neg hp]
    simp

/-! ## Single instructions -/

/-- The words that the text of the instruction at an address is assembled to. -/
def rereadAt (mem : Memory) (p : Word) : List Word :=
  wordsReread (mem.read p) (mem.block (p + 1) ((mem.read p).instructionLength - 1))

theorem addLine_lineAt (mem : Memory) (p : Word) (l : Layout) (line : Nat) :
    l.addLine line (mem.lineAt p).1 = .ok (l.append ((mem.rereadAt p).map .word)) := by
  have := (mem.read p).instructionLength_pos
  exact addLine_wordsText (by rw [length_block]; omega) l line

/-- The instruction at an address has a next word as its source, and that word is small enough for a literal. -/
def ShortensAt (mem : Memory) (p : Word) : Prop :=
  ∃ i, Instruction.decode (mem.read p) = .ok i ∧ i.source = .next ∧
    (mem.read (p + 1) ≤ 30 ∨ mem.read (p + 1) = 0xffff)

theorem block_lineAt (mem : Memory) (p : Word) :
    mem.block p (mem.lineAt p).2 = mem.read p :: mem.block (p + 1) ((mem.read p).instructionLength - 1) := by
  have := (mem.read p).instructionLength_pos
  rw [← block_succ, Nat.sub_add_cancel this]
  rfl

/-- The next words of an instruction whose source takes one start with the word behind its address. -/
theorem next_eq_cons_of_source {mem : Memory} {p : Word} {i : Instruction} (hd : Instruction.decode (mem.read p) = .ok i)
    (hs : i.source = .next) :
    ∃ rest, mem.block (p + 1) ((mem.read p).instructionLength - 1) = mem.read (p + 1) :: rest := by
  have size := Instruction.size_of_decode hd
  have taken : 0 < (mem.read p).instructionLength - 1 := by
    unfold Instruction.size Instruction.extraWords at size
    cases i <;> cases hs <;> simp only [Operand.extraWords, Operand.takesWord, Bool.toNat_true] at size <;> omega
  obtain ⟨k, hk⟩ := Nat.exists_eq_succ_of_ne_zero (Nat.ne_of_gt taken)
  rw [hk]
  exact ⟨_, block_succ mem (p + 1) k⟩

/-- An instruction that is not shortened is assembled to itself. -/
theorem rereadAt_of_not_shortensAt {mem : Memory} {p : Word} (h : ¬ mem.ShortensAt p) :
    mem.rereadAt p = mem.block p (mem.lineAt p).2 := by
  rw [block_lineAt, rereadAt, wordsReread]
  cases hd : Instruction.decode (mem.read p) with
  | error e => rfl
  | ok i =>
    have kept : i.source.reread (mem.block (p + 1) ((mem.read p).instructionLength - 1)) =
        (i.source, mem.block (p + 1) ((mem.read p).instructionLength - 1)) := by
      apply Operand.reread_of_not_short
      intro hs
      obtain ⟨rest, hrest⟩ := next_eq_cons_of_source hd hs
      rw [hrest, List.headD_cons, Operand.shortLiteral?, if_neg]
      exact fun small => h ⟨i, hd, hs, small.symm⟩
    simp only [Instruction.reread, kept, Instruction.withSource_source, Instruction.encode_of_decode hd]

/-- An instruction that is shortened is assembled to another one. -/
theorem rereadAt_of_shortensAt {mem : Memory} {p : Word} (h : mem.ShortensAt p) :
    ∃ w rest, mem.rereadAt p = w :: rest ∧ w ≠ mem.read p := by
  obtain ⟨i, hd, hs, small⟩ := h
  obtain ⟨rest, hrest⟩ := next_eq_cons_of_source hd hs
  have short : Operand.shortLiteral? (mem.read (p + 1)) = some (.literal (mem.read (p + 1))) := if_pos small.symm
  refine ⟨(i.withSource (.literal (mem.read (p + 1)))).encode, rest, ?_, ?_⟩
  · simp only [rereadAt, wordsReread, hd, hrest, Instruction.reread, hs, Operand.reread_of_short short]
  · intro same
    -- both decode, to instructions with different sources
    have formed : (i.withSource (.literal (mem.read (p + 1)))).WellFormed := by
      have formed := Instruction.wellFormed_of_decode hd
      cases i with
      | basic op b a => exact ⟨formed.1, small.symm⟩
      | special op a => exact small.symm
    have decoded := Instruction.decode_encode formed
    rw [same, hd] at decoded
    cases i <;> cases hs <;> cases decoded

/-! ## The whole text -/

/-- The words that the text of the walk from `p` on is assembled to. -/
def reread (mem : Memory) (size p : Nat) : List Word :=
  (mem.starts size p).flatMap fun q => mem.rereadAt (UInt16.ofNat q)

theorem assemble_source (mem : Memory) (size : Nat) :
    assemble (mem.source size) =
      if Word.count < (mem.reread size 0).length then .error (.tooLarge (mem.reread size 0).length)
      else .ok (mem.reread size 0) := by
  rw [source, walk_eq]
  exact assemble_lines (fun q _ => addLine_lineAt mem _) fun q _ => newline_not_mem_wordsText _ _

/-- The walk from `p` on gives the image back from `p` on, exactly if it ends at its end and shortens nothing. -/
theorem reread_eq_drop_iff {image : List Word} {mem : Memory} (hm : ofImage image = .ok mem) (p : Nat) :
    p ≤ image.length ∧ mem.reread image.length p = image.drop p ↔
      mem.finish image.length p = image.length ∧
        ∀ q ∈ mem.starts image.length p, ¬ mem.ShortensAt (UInt16.ofNat q) := by
  fun_induction starts mem image.length p with
  | case2 p hp =>
    rw [finish, if_neg hp, reread, starts, if_neg hp, List.flatMap_nil]
    constructor
    · rintro ⟨hle, -⟩
      exact ⟨by omega, by simp⟩
    · rintro ⟨rfl, -⟩
      exact ⟨Nat.le_refl _, by simp⟩
  | case1 p hp ih =>
    rw [finish, if_pos hp, reread, starts, if_pos hp, List.flatMap_cons, List.forall_mem_cons]
    by_cases hs : mem.ShortensAt (UInt16.ofNat p)
    · -- the instruction word alone is already another one
      obtain ⟨w, rest, hr, hw⟩ := rereadAt_of_shortensAt hs
      refine iff_of_false ?_ fun both => both.2.1 hs
      rintro ⟨-, heads⟩
      rw [hr, List.drop_eq_getElem_cons hp] at heads
      exact hw ((List.cons.inj heads).1.trans (read_of_lt hm hp).symm)
    · have step := block_append_eq_drop_iff hm (Nat.le_of_lt hp) (mem.lineAt (UInt16.ofNat p)).2
        (mem.reread image.length (p + (mem.lineAt (UInt16.ofNat p)).2))
      rw [rereadAt_of_not_shortensAt hs]
      rw [and_iff_right (Nat.le_of_lt hp), and_iff_right hs]
      exact step.trans ih

/-- **The round trip.** The program text of an image is assembled to the image if and only if the walk through it
ends at its end and shortens no instruction; and the assembler accepts each line of it. -/
theorem assemble_source_iff {image : List Word} (h : image.length ≤ Word.count) :
    ∃ mem, ofImage image = .ok mem ∧
      (assemble (mem.source image.length) = .ok image ↔
        mem.finish image.length 0 = image.length ∧
          ∀ p ∈ mem.starts image.length 0, ¬ mem.ShortensAt (UInt16.ofNat p)) ∧
      ∀ t ∈ mem.walk image.length 0 [], ∀ (l : Layout) line, ∃ l', l.addLine line t = .ok l' := by
  refine ⟨_, if_pos h, ?_, ?_⟩
  · rw [← reread_eq_drop_iff (if_pos h), List.drop_zero, and_iff_right (Nat.zero_le _), assemble_source]
    constructor
    · intro hok
      split at hok
      · cases hok
      · exact Except.ok.inj hok
    · intro same
      rw [same, if_neg (by omega)]
  · intro t ht l line
    rw [walk_eq, List.reverse_nil, List.nil_append] at ht
    obtain ⟨p, -, rfl⟩ := List.mem_map.mp ht
    exact ⟨_, addLine_lineAt _ _ l line⟩

/-- A next word that is too large for a literal, and a reserved word behind it, are both found again. -/
theorem assemble_source_of_reserved :
    ([0x7c01, 0x0030, 0x0000] : List Word).length ≤ Word.count ∧
      ∃ mem, ofImage [0x7c01, 0x0030, 0x0000] = .ok mem ∧
        assemble (mem.source 3) = .ok [0x7c01, 0x0030, 0x0000] := by
  refine ⟨by decide, ?_⟩
  obtain ⟨mem, hm, again, -⟩ := assemble_source_iff (by decide : ([0x7c01, 0x0030, 0x0000] : List Word).length ≤ _)
  have first : mem.read 0 = 0x7c01 := read_ofImage hm (q := 0) (by decide)
  have second : mem.read 1 = 0x0030 := read_ofImage hm (q := 1) (by decide)
  have third : mem.read 2 = 0x0000 := read_ofImage hm (q := 2) (by decide)
  have lengths : (mem.lineAt 0).2 = 2 ∧ (mem.lineAt 2).2 = 1 := by
    simp only [lineAt, first, third]
    decide
  have starts : mem.starts 3 0 = [0, 2] := by
    simp [starts, lengths]
  refine ⟨mem, hm, again.mpr ⟨by simp [finish, lengths], ?_⟩⟩
  intro p hp
  rw [List.length_cons, List.length_cons, List.length_singleton, starts] at hp
  rintro ⟨i, hd, -, small⟩
  rcases List.mem_cons.mp hp with rfl | hp
  · have large : ¬ (mem.read 1 ≤ 30 ∨ mem.read 1 = 0xffff) := by rw [second]; decide
    exact large small
  · rw [List.mem_singleton.mp hp] at hd
    have reserved : Instruction.decode (mem.read 2) = .error (.reservedSpecial 0) := by rw [third]; rfl
    cases reserved.symm.trans hd

end Memory

end Dcpu16
