import Dcpu16.Proofs.Arithmetic.LongAddition

/-!
# Subtraction of long numbers

Numbers of many words are subtracted from the lowest word up: SUB for the first words and SBX for all others. What one
of them borrows is left in EX as `0xffff`, the word of minus one. But SBX adds EX as a number that is never negative: a
borrow is one less in the word that it is taken from, and `2 ^ 16` too much for all of them together. So the chain
subtracts exactly if only the last word borrows (`long_subtraction`); any other borrow is lost, or even turns into a
carry (`long_subtraction_loses_borrow`).
-/

namespace Dcpu16

namespace Word

/-- What a subtraction leaves in EX, as it is meant. -/
theorem signed_excess : (0 : Word).signed = 0 ∧ (1 : Word).signed = 1 ∧ (0xffff : Word).signed = -1 :=
  ⟨rfl, rfl, rfl⟩

/-- A word that stands for a negative number is too much by `2 ^ 16` where it is read as one that is not. -/
theorem toNat_eq_signed (w : Word) :
    (w.toNat : Int) = w.signed + 2 ^ 16 * (if w.signed < 0 then 1 else 0 : Nat) := by
  have := w.toNat_lt
  unfold signed
  split <;> split <;> omega

end Word

namespace Core

/-- The words of a pair are subtracted and a number is added: the difference stands at the first place, with what it
borrows or carries in EX, and the other words of the pairs are as they were. -/
structure Subtracts (pairs : List (Location × Location)) (s : Core) (p : Location × Location) (added : Int)
    (t : Core) : Prop where
  difference : ((t.load p.1).toNat : Int) + 2 ^ 16 * t.regs.ex.signed =
    (s.load p.1).toNat - (s.load p.2).toNat + added
  others : ∀ q ∈ pairs, (p.1 ≠ q.1 → t.load q.1 = s.load q.1) ∧ (p.1 ≠ q.2 → t.load q.2 = s.load q.2)

/-- The lowest `k` words of the first numbers less those of the second ones. -/
def lowDifference (s : Core) (pairs : List (Location × Location)) (k : Nat) : Int :=
  s.number ((pairs.take k).map Prod.fst) - s.number ((pairs.take k).map Prod.snd)

/-- The words of some of the pairs are subtracted and a carry is added, but the result is in excess by some number. It
is exact only if no shorter low part of it is negative. The first words of the other pairs are as they were. -/
structure SubtractsAll (pairs : List (Location × Location)) (s : Core) (some : List (Location × Location)) (carry : Int)
    (t : Core) : Prop where
  difference : ∃ excess : Nat,
    (t.number (some.map Prod.fst) : Int) + 2 ^ (16 * some.length) * t.regs.ex.signed =
        s.number (some.map Prod.fst) - s.number (some.map Prod.snd) + carry + excess ∧
      (excess = 0 ↔ ∀ k < some.length, 0 ≤ s.lowDifference some k + carry)
  others : ∀ q ∈ pairs, (∀ p ∈ some, p.1 ≠ q.1) → t.load q.1 = s.load q.1

section
variable {pairs : List (Location × Location)} {s t : Core} {p : Location × Location} {b a : Operand}

/-! ## One word -/

theorem subtracts_of_sub (apart : Apart pairs) (hp : p ∈ pairs) (h : Executes pairs s ⟨.sub, p.1, p.2⟩ b a t) :
    s.Subtracts pairs p 0 t := by
  have left := stores_of_executes apart hp h rfl
  refine ⟨?_, left.others⟩
  rw [left.stored, left.excess, UInt16.toNat_sub]
  have small := (s.load p.1).toNat_lt
  have small' := (s.load p.2).toNat_lt
  obtain ⟨exact_difference, -, borrows⟩ := Word.signed_excess
  split
  · next less =>
    have : (s.load p.1).toNat < (s.load p.2).toNat := less
    omega
  · next not_less =>
    have : ¬ (s.load p.1).toNat < (s.load p.2).toNat := not_less
    omega

/-- SBX adds EX as a number that is never negative. -/
theorem subtracts_of_sbx (apart : Apart pairs) (hp : p ∈ pairs) (h : Executes pairs s ⟨.sbx, p.1, p.2⟩ b a t) :
    s.Subtracts pairs p s.regs.ex.toNat t := by
  have left := stores_of_executes apart hp h rfl
  refine ⟨?_, left.others⟩
  rw [left.stored, left.excess, Word.toNat_ofInt]
  have small := (s.load p.1).toNat_lt
  have small' := (s.load p.2).toNat_lt
  have small'' := s.regs.ex.toNat_lt
  obtain ⟨exact_difference, carries, borrows⟩ := Word.signed_excess
  split
  · omega
  · split <;> omega

end

/-! ## All words -/

section
variable {s t u w : Core} {pairs ps : List (Location × Location)} {p : Location × Location} {carry : Int}

theorem lowDifference_zero : s.lowDifference pairs 0 = 0 := rfl

theorem lowDifference_succ (k : Nat) : s.lowDifference (p :: ps) (k + 1) =
    (s.load p.1).toNat - (s.load p.2).toNat + 2 ^ 16 * s.lowDifference ps k := by
  simp only [lowDifference, List.take_succ_cons, List.map_cons, number_cons]
  omega

theorem lowDifference_congr (h : ∀ p ∈ ps, t.load p.1 = s.load p.1 ∧ t.load p.2 = s.load p.2) (k : Nat) :
    t.lowDifference ps k = s.lowDifference ps k := by
  have low : ∀ p ∈ ps.take k, t.load p.1 = s.load p.1 ∧ t.load p.2 = s.load p.2 :=
    fun p hp => h p (List.mem_of_mem_take hp)
  rw [lowDifference, lowDifference, (numbers_congr low).1, (numbers_congr low).2]

/-- A step subtracts the lowest words, and what is behind it subtracts all others with the borrow or carry that it
leaves. A borrow that the step itself was left is lost if it takes EX for a number that is not negative. -/
theorem SubtractsAll.cons {lost : Nat} (apart : Apart (p :: ps)) (inside : p :: ps ⊆ pairs) (idle : s.Keeps pairs u)
    (now : u.Subtracts pairs p (carry + 2 ^ 16 * lost) w) (lost_iff : lost = 0 ↔ 0 ≤ carry)
    (rest : w.SubtractsAll pairs ps w.regs.ex.signed t) : s.SubtractsAll pairs (p :: ps) carry t := by
  obtain ⟨own, inside⟩ := List.cons_subset.mp inside
  refine ⟨?_, loads_of_unwritten idle now.others rest.others⟩
  have later := loads_behind apart inside idle now.others
  obtain ⟨dests, srcs⟩ := numbers_congr later
  have lowest : t.load p.1 = w.load p.1 :=
    rest.others p own fun q hq => ((List.pairwise_cons.mp apart.unwritten).1 q hq).1.symm
  have here := now.difference
  obtain ⟨excess, above, excess_iff⟩ := rest.difference
  rw [(idle.loads p own).1, (idle.loads p own).2] at here
  rw [dests, srcs] at above
  refine ⟨2 ^ 16 * (lost + excess), ?_, ?_⟩
  · rw [List.map_cons, List.map_cons, number_cons, number_cons, number_cons, List.length_cons, Nat.mul_succ,
      Nat.add_comm (16 * ps.length), Int.pow_add, Int.mul_assoc, lowest]
    omega
  · have digit := (w.load p.1).toNat_lt
    simp only [lowDifference_congr later] at excess_iff
    rw [List.length_cons]
    -- the lowest word of a result is not negative, so a low part has the sign of what is above that word
    constructor
    · rintro none_lost (_ | k) hk
      · rw [lowDifference_zero, Int.zero_add]
        exact lost_iff.mp (by omega)
      · have low := excess_iff.mp (by omega) k (Nat.lt_of_succ_lt_succ hk)
        rw [lowDifference_succ]
        omega
    · intro low
      have none_lost : lost = 0 := lost_iff.mpr (by simpa [lowDifference_zero] using low 0 (Nat.succ_pos _))
      have none_behind : excess = 0 := by
        apply excess_iff.mpr
        intro k hk
        have := low (k + 1) (Nat.succ_lt_succ hk)
        rw [lowDifference_succ] at this
        omega
      omega

theorem SubtractsAll.nil (h : s.regs.ex.signed = carry) (idle : s.Keeps pairs t) : s.SubtractsAll pairs [] carry t where
  difference := by
    refine ⟨0, ?_, by simp⟩
    rw [idle.ex, h]
    simp [number]
  others q hq _ := (idle.loads q hq).1

/-- Steps of SBX subtract the words of the last pairs, and take EX for a borrow or a carry. -/
theorem subtractsAll_of_sbx (apart : Apart pairs) (last : ps <:+ pairs)
    (run : CarriesOut pairs s (ps.map fun p => ⟨.sbx, p.1, p.2⟩) t) : s.SubtractsAll pairs ps s.regs.ex.signed t := by
  induction ps generalizing s with
  | nil =>
    cases run with
    | done idle => exact .nil rfl idle
  | cons p ps ih =>
    cases run with
    | next idle now rest =>
      rw [← idle.ex]
      have subtracts := subtracts_of_sbx apart (last.subset (List.mem_cons_self ..)) now
      have behind := ih ((List.suffix_cons p ps).trans last) rest
      rw [Word.toNat_eq_signed] at subtracts
      refine .cons (apart.of_suffix last) last.subset idle subtracts ?_ behind
      split <;> omega

end

end Core

/-- Below a bound, the difference of two numbers and whether the first one is less are together one exact difference. -/
theorem difference_iff {first second number : Nat} {bound : Int} (first_lt : first < bound) (second_lt : second < bound)
    (number_lt : number < bound) (ex : Word) :
    ((number : Int) = ((first : Int) - second) % bound ∧ ex = if first < second then 0xffff else 0) ↔
      (number : Int) + bound * ex.signed = first - second := by
  have positive : (0 : Int) < bound := by omega
  have quotient : ((first : Int) - second) / bound = (if first < second then 0xffff else 0 : Word).signed := by
    obtain ⟨exact_difference, -, borrows⟩ := Word.signed_excess
    split
    · have parts : (first : Int) - second + bound + bound * -1 = first - second := by omega
      rw [borrows]
      exact ((Int.ediv_emod_unique positive).mpr ⟨parts, by omega, by omega⟩).1
    · rw [exact_difference]
      exact Int.ediv_eq_zero_of_lt (by omega) (by omega)
  constructor
  · rintro ⟨remainder, flag⟩
    rw [remainder, flag, ← quotient]
    exact Int.emod_add_mul_ediv ..
  · intro parts
    obtain ⟨signed, remainder⟩ := (Int.ediv_emod_unique positive).mpr ⟨parts, by omega, by omega⟩
    refine ⟨remainder.symm, ?_⟩
    rw [← Word.ofInt_signed ex, ← signed, quotient, Word.ofInt_signed]

/-- **Subtraction of long numbers.** SUB on the first pair of words and SBX on each pair behind it, in order, are to
leave the difference of two numbers of `n` words where the first one stood, modulo `2 ^ (16 * n)`, and in EX `0xffff` if
the first number is less than the second, or else zero. They do so exactly if no shorter low part of the first number is
less than that of the second. -/
theorem long_subtraction {pairs : List (Location × Location)} {s t : Core} (nonempty : pairs ≠ []) (apart : Apart pairs)
    (run : Core.CarriesOut pairs s (chained .sub .sbx pairs) t) :
    ((t.number (pairs.map Prod.fst) : Int) =
          ((s.number (pairs.map Prod.fst) : Int) - s.number (pairs.map Prod.snd)) % 2 ^ (16 * pairs.length) ∧
        t.regs.ex = if s.number (pairs.map Prod.fst) < s.number (pairs.map Prod.snd) then 0xffff else 0) ↔
      ∀ k < pairs.length,
        s.number ((pairs.take k).map Prod.snd) ≤ s.number ((pairs.take k).map Prod.fst) := by
  have subtracts : s.SubtractsAll pairs pairs 0 t := by
    cases pairs with
    | nil => exact absurd rfl nonempty
    | cons p ps =>
      cases run with
      | next idle now rest =>
        have first := Core.subtracts_of_sub apart (List.mem_cons_self ..) now
        have others := Core.subtractsAll_of_sbx apart (List.suffix_cons p ps) rest
        have nothing_lost : (0 : Int) + 2 ^ 16 * (0 : Nat) = 0 := rfl
        exact .cons apart (List.Subset.refl _) idle (nothing_lost ▸ first) (by omega) others
  obtain ⟨excess, difference, excess_iff⟩ := subtracts.difference
  have below (u : Core) {ls : List Location} (same : ls.length = pairs.length) :
      (u.number ls : Int) < 2 ^ (16 * pairs.length) := by
    rw [← same]
    exact_mod_cast u.number_lt ls
  rw [difference_iff (below s (List.length_map _)) (below s (List.length_map _)) (below t (List.length_map _))]
  have exact_iff : (∀ k < pairs.length,
      s.number ((pairs.take k).map Prod.snd) ≤ s.number ((pairs.take k).map Prod.fst)) ↔ excess = 0 := by
    rw [excess_iff]
    refine forall₂_congr fun k _ => ?_
    rw [Core.lowDifference]
    omega
  rw [exact_iff]
  omega

/-! ## Three words -/

/-- The words in A, B and C with those in X, Y and Z. -/
def threeWords : List (Location × Location) :=
  [(.register .a, .register .x), (.register .b, .register .y), (.register .c, .register .z)]

/-- A machine that subtracts the number in X, Y and Z from the one in A, B and C. -/
def subtracting (regs : Registers) : Machine Device where
  regs := regs
  mem := Memory.blank.writeFrom 0 [0x0c03, 0x103b, 0x145b]

/-- The machine executes its three instructions in eight cycles, if nothing is changed by those that pay for them. -/
theorem carriesOut_subtracting (regs : Registers) {low middle high : Core}
    (first : low = ((subtracting regs).toCore.past.basic .sub (.register .a) (.register .x)).1)
    (second : middle = (low.past.basic .sbx (.register .b) (.register .y)).1)
    (third : high = (middle.past.basic .sbx (.register .c) (.register .z)).1)
    (behind : high.Keeps threeWords ((subtracting regs).afterCycles 8).toCore) :
    Core.CarriesOut threeWords (subtracting regs).toCore (chained .sub .sbx threeWords)
      ((subtracting regs).afterCycles 8).toCore := by
  have steady : ∀ p ∈ threeWords, p.1.isSteady ∧ p.2.isSteady := by decide
  have idle (s : Core) : s.Keeps threeWords s.past := by
    refine ⟨rfl, fun p hp => ?_⟩
    simp only [threeWords, List.mem_cons, List.not_mem_nil, or_false] at hp
    rcases hp with rfl | rfl | rfl <;> exact ⟨rfl, rfl⟩
  refine .next (idle _) ⟨rfl, rfl, Core.keeps_prepared steady _ _, first⟩ ?_
  refine .next (idle _) ⟨rfl, rfl, Core.keeps_prepared steady _ _, second⟩ ?_
  exact .next (idle _) ⟨rfl, rfl, Core.keeps_prepared steady _ _, third⟩ (.done behind)

/-- Only the highest word borrows. -/
theorem long_subtraction_of_highest :
    ((subtracting { a := 1, x := 1, z := 1 }).afterCycles 8).toCore.number (threeWords.map Prod.fst) =
        2 ^ 48 - 2 ^ 32 ∧
      ((subtracting { a := 1, x := 1, z := 1 }).afterCycles 8).regs.ex = 0xffff := by
  have run := carriesOut_subtracting { a := 1, x := 1, z := 1 } rfl rfl rfl
    ⟨by decide +kernel, by decide +kernel⟩
  have numbers : (subtracting { a := 1, x := 1, z := 1 }).toCore.number (threeWords.map Prod.fst) = 1 ∧
      (subtracting { a := 1, x := 1, z := 1 }).toCore.number (threeWords.map Prod.snd) = 2 ^ 32 + 1 := by
    decide +kernel
  have subtracts := (long_subtraction (by decide) ⟨by decide, by decide⟩ run).mpr (by decide +kernel)
  rw [numbers.1, numbers.2] at subtracts
  refine ⟨?_, subtracts.2⟩
  exact Int.ofNat_inj.mp subtracts.1

/-- **A borrow is lost** that goes through two words: zero less one, each in cells of its own, leaves no borrow in EX.
-/
theorem long_subtraction_loses_borrow :
    ¬ ∀ (pairs : List (Location × Location)) (s t : Core), pairs ≠ [] →
      (pairs.map Prod.fst ++ pairs.map Prod.snd).Nodup → (∀ p ∈ pairs, p.1.isCell ∧ p.2.isCell) →
      Core.CarriesOut pairs s (chained .sub .sbx pairs) t →
      (t.number (pairs.map Prod.fst) : Int) =
          ((s.number (pairs.map Prod.fst) : Int) - s.number (pairs.map Prod.snd)) % 2 ^ (16 * pairs.length) ∧
        t.regs.ex = if s.number (pairs.map Prod.fst) < s.number (pairs.map Prod.snd) then 0xffff else 0 := by
  intro rule
  have run := carriesOut_subtracting { x := 1 } rfl rfl rfl ⟨by decide +kernel, by decide +kernel⟩
  have result := (rule threeWords _ _ (by decide) (by decide) (by decide) run).2
  have less : (subtracting { x := 1 }).toCore.number (threeWords.map Prod.fst) <
      (subtracting { x := 1 }).toCore.number (threeWords.map Prod.snd) := by decide +kernel
  have excess : ((subtracting { x := 1 }).afterCycles 8).toCore.regs.ex = 0 := by decide +kernel
  rw [if_pos less, excess] at result
  cases result

end Dcpu16
