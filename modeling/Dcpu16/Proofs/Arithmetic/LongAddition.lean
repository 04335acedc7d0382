import Dcpu16.Proofs.Arithmetic.Results
import Dcpu16.Proofs.Cycle.Accounting
import Mathlib.Data.Nat.Digits.Defs

/-!
# Addition of long numbers

Numbers of many words are added from the lowest word up: ADD for the first words and ADX for all others. Each of these
leaves its carry in EX, which is zero or one, and the next one adds it; so behind the last the destination holds the
sum, and EX what does not fit (`long_addition`). Between the instructions anything may happen that leaves EX and the
words of the two numbers alone.
-/

namespace Dcpu16

/-- A basic operation on the words at two places. -/
structure WordStep where
  op : BasicOp
  dest : Location
  src : Location

/-- The first operation on the first pair of places, and the other one on those behind it. -/
def chained (first next : BasicOp) : List (Location × Location) → List WordStep
  | [] => []
  | p :: ps => ⟨first, p.1, p.2⟩ :: ps.map fun p => ⟨next, p.1, p.2⟩

/-- **Pairs of places that can be worked on in order**: none is EX, and no place that is written belongs to a later
pair. Two numbers in disjoint places are so, and a number paired with itself. -/
structure Apart (pairs : List (Location × Location)) : Prop where
  places : ∀ p ∈ pairs, p.1.isWritable ∧ p.2 ≠ .ex
  unwritten : pairs.Pairwise fun p q => p.1 ≠ q.1 ∧ p.1 ≠ q.2

theorem Apart.of_suffix {pairs ps : List (Location × Location)} (h : Apart pairs) (last : ps <:+ pairs) :
    Apart ps where
  places p hp := h.places p (last.subset hp)
  unwritten := h.unwritten.sublist last.sublist

namespace Core

/-- The number whose words stand at places, the lowest first. -/
def number (s : Core) (places : List Location) : Nat := Nat.ofDigits (2 ^ 16) (places.map fun l => (s.load l).toNat)

/-- EX and the words of pairs of places are as they were. -/
structure Keeps (pairs : List (Location × Location)) (s t : Core) : Prop where
  ex : t.regs.ex = s.regs.ex
  loads : ∀ p ∈ pairs, t.load p.1 = s.load p.1 ∧ t.load p.2 = s.load p.2

/-- **An instruction is executed** whose operands stand for the places of a step, and leave the words of the pairs as
they were; a word in SP would be lost if one of them moved SP. -/
structure Executes (pairs : List (Location × Location)) (s : Core) (step : WordStep) (b a : Operand) (t : Core) :
    Prop where
  dest : s.destination b a = step.dest
  src : (s.resolve a).1 = step.src
  quiet : s.Keeps pairs (s.prepared b a)
  done : t = (s.basic step.op b a).1

/-- **Steps carried out in order.** Before, between and behind them anything may happen that leaves EX and the words of
the pairs alone. -/
inductive CarriesOut (pairs : List (Location × Location)) : Core → List WordStep → Core → Prop
  | done {s t : Core} (idle : s.Keeps pairs t) : CarriesOut pairs s [] t
  | next {s u w t : Core} {step : WordStep} {steps : List WordStep} {b a : Operand} (idle : s.Keeps pairs u)
      (now : Executes pairs u step b a w) (rest : CarriesOut pairs w steps t) : CarriesOut pairs s (step :: steps) t

/-- A word is stored at the first place of a pair and another in EX, and the other words of the pairs are as they
were. -/
structure Stores (pairs : List (Location × Location)) (s : Core) (p : Location × Location) (v e : Word) (t : Core) :
    Prop where
  stored : t.load p.1 = v
  excess : t.regs.ex = e
  others : ∀ q ∈ pairs, (p.1 ≠ q.1 → t.load q.1 = s.load q.1) ∧ (p.1 ≠ q.2 → t.load q.2 = s.load q.2)

/-- The words of a pair and a carry are added: the sum stands at the first place and in EX, and the other words of the
pairs are as they were. -/
structure Adds (pairs : List (Location × Location)) (s : Core) (p : Location × Location) (carry : Nat) (t : Core) :
    Prop where
  sum : (t.load p.1).toNat + 2 ^ 16 * t.regs.ex.toNat = (s.load p.1).toNat + (s.load p.2).toNat + carry
  carry_le : t.regs.ex.toNat ≤ 1
  others : ∀ q ∈ pairs, (p.1 ≠ q.1 → t.load q.1 = s.load q.1) ∧ (p.1 ≠ q.2 → t.load q.2 = s.load q.2)

/-- The words of some of the pairs and a carry are added, and the first words of the other pairs are as they were. -/
structure AddsAll (pairs : List (Location × Location)) (s : Core) (some : List (Location × Location)) (carry : Nat)
    (t : Core) : Prop where
  sum : t.number (some.map Prod.fst) + 2 ^ (16 * some.length) * t.regs.ex.toNat =
    s.number (some.map Prod.fst) + s.number (some.map Prod.snd) + carry
  carry_le : t.regs.ex.toNat ≤ 1
  others : ∀ q ∈ pairs, (∀ p ∈ some, p.1 ≠ q.1) → t.load q.1 = s.load q.1

section
variable {pairs : List (Location × Location)} {s t : Core} {p : Location × Location} {b a : Operand}

/-- Operands leave words alone that are not in SP or PC. -/
theorem keeps_prepared (steady : ∀ p ∈ pairs, p.1.isSteady ∧ p.2.isSteady) (b a : Operand) :
    s.Keeps pairs (s.prepared b a) where
  ex := ex_prepared b a
  loads p hp := ⟨load_prepared (steady p hp).1 b a, load_prepared (steady p hp).2 b a⟩

/-! ## One word -/

theorem stores_of_executes {op : BasicOp} {v e : Word} (apart : Apart pairs) (hp : p ∈ pairs)
    (h : Executes pairs s ⟨op, p.1, p.2⟩ b a t)
    (effect : (op.effect (s.load p.1) (s.load p.2) s.regs.ex).results? s.regs.ex = some (v, e)) :
    s.Stores pairs p v e t := by
  obtain ⟨dest, src, quiet, rfl⟩ := h
  dsimp only at dest src
  rw [← (quiet.loads p hp).1, ← dest, ← src, ← source_eq] at effect
  have left := s.leaves (by rw [dest]; exact (apart.places p hp).1) effect
  rw [dest] at left
  refine ⟨left.stored, left.excess, ?_⟩
  intro q hq
  have places := apart.places q hq
  constructor
  · intro other
    rw [left.others other.symm (Location.ne_ex_of_isWritable places.1), (quiet.loads q hq).1]
  · intro other
    rw [left.others other.symm places.2, (quiet.loads q hq).2]

theorem adds_of_add (apart : Apart pairs) (hp : p ∈ pairs) (h : Executes pairs s ⟨.add, p.1, p.2⟩ b a t) :
    s.Adds pairs p 0 t := by
  have left := stores_of_executes apart hp h rfl
  have small := (s.load p.1).toNat_lt
  have small' := (s.load p.2).toNat_lt
  have words := Word.two_words_of_lt (n := (s.load p.1).toNat + (s.load p.2).toNat) (by omega)
  rw [Int.natCast_add, ← left.stored, ← left.excess] at words
  have small'' := (t.load p.1).toNat_lt
  exact ⟨by omega, by omega, left.others⟩

/-- ADX loses nothing as long as EX is a carry. -/
theorem adds_of_adx (apart : Apart pairs) (hp : p ∈ pairs) (carry : s.regs.ex.toNat ≤ 1)
    (h : Executes pairs s ⟨.adx, p.1, p.2⟩ b a t) : s.Adds pairs p s.regs.ex.toNat t := by
  have left := stores_of_executes apart hp h rfl
  have small := (s.load p.1).toNat_lt
  have small' := (s.load p.2).toNat_lt
  have stored := congrArg UInt16.toNat left.stored
  have excess : t.regs.ex.toNat =
      if 0xffff < (s.load p.1).toNat + (s.load p.2).toNat + s.regs.ex.toNat then 1 else 0 := by
    rw [left.excess]
    split <;> rfl
  rw [UInt16.toNat_ofNat'] at stored
  refine ⟨?_, ?_, left.others⟩
  · split at excess <;> omega
  · split at excess <;> omega

end

/-! ## All words -/

section
variable {s t : Core} {pairs : List (Location × Location)}

theorem number_cons (l : Location) (ls : List Location) :
    s.number (l :: ls) = (s.load l).toNat + 2 ^ 16 * s.number ls := Nat.ofDigits_cons

theorem number_lt (ls : List Location) : s.number ls < 2 ^ (16 * ls.length) := by
  have digits : ∀ d ∈ ls.map fun l => (s.load l).toNat, d < 2 ^ 16 := by
    intro d hd
    obtain ⟨l, -, rfl⟩ := List.mem_map.mp hd
    exact (s.load l).toNat_lt
  have bound := Nat.ofDigits_lt_base_pow_length (by decide) digits
  rwa [List.length_map, ← Nat.pow_mul] at bound

/-- Numbers are the same where the words at their places are. -/
theorem number_congr {ls : List Location} (h : ∀ l ∈ ls, t.load l = s.load l) : t.number ls = s.number ls :=
  congrArg _ (List.map_congr_left fun l hl => congrArg UInt16.toNat (h l hl))

/-- Two numbers are the same where the words of their pairs are. -/
theorem numbers_congr {ps : List (Location × Location)}
    (h : ∀ p ∈ ps, t.load p.1 = s.load p.1 ∧ t.load p.2 = s.load p.2) :
    t.number (ps.map Prod.fst) = s.number (ps.map Prod.fst) ∧
      t.number (ps.map Prod.snd) = s.number (ps.map Prod.snd) := by
  constructor
  · apply number_congr
    intro l hl
    obtain ⟨p, hp, rfl⟩ := List.mem_map.mp hl
    exact (h p hp).1
  · apply number_congr
    intro l hl
    obtain ⟨p, hp, rfl⟩ := List.mem_map.mp hl
    exact (h p hp).2

section
variable {u w : Core} {p : Location × Location} {ps : List (Location × Location)}

/-- A step on a pair leaves the pairs behind it alone. -/
theorem loads_behind (apart : Apart (p :: ps)) (inside : ps ⊆ pairs) (idle : s.Keeps pairs u)
    (now : ∀ q ∈ pairs, (p.1 ≠ q.1 → w.load q.1 = u.load q.1) ∧ (p.1 ≠ q.2 → w.load q.2 = u.load q.2)) :
    ∀ q ∈ ps, w.load q.1 = s.load q.1 ∧ w.load q.2 = s.load q.2 := by
  intro q hq
  have unwritten := (List.pairwise_cons.mp apart.unwritten).1 q hq
  have stays := now q (inside hq)
  have before := idle.loads q (inside hq)
  exact ⟨(stays.1 unwritten.1).trans before.1, (stays.2 unwritten.2).trans before.2⟩

/-- A step and those behind it leave the places alone that none of them writes. -/
theorem loads_of_unwritten (idle : s.Keeps pairs u)
    (now : ∀ q ∈ pairs, (p.1 ≠ q.1 → w.load q.1 = u.load q.1) ∧ (p.1 ≠ q.2 → w.load q.2 = u.load q.2))
    (rest : ∀ q ∈ pairs, (∀ r ∈ ps, r.1 ≠ q.1) → t.load q.1 = w.load q.1) :
    ∀ q ∈ pairs, (∀ r ∈ p :: ps, r.1 ≠ q.1) → t.load q.1 = s.load q.1 := by
  intro q hq other
  rw [rest q hq fun r hr => other r (List.mem_cons_of_mem _ hr), (now q hq).1 (other p (List.mem_cons_self ..)),
    (idle.loads q hq).1]

/-- A step adds the lowest words, and what is behind it adds all others with the carry that it leaves. -/
theorem AddsAll.cons {carry : Nat} (apart : Apart (p :: ps)) (inside : p :: ps ⊆ pairs) (idle : s.Keeps pairs u)
    (now : u.Adds pairs p carry w) (rest : w.AddsAll pairs ps w.regs.ex.toNat t) :
    s.AddsAll pairs (p :: ps) carry t := by
  obtain ⟨own, inside⟩ := List.cons_subset.mp inside
  refine { sum := ?_, carry_le := rest.carry_le, others := loads_of_unwritten idle now.others rest.others }
  obtain ⟨dests, srcs⟩ := numbers_congr (loads_behind apart inside idle now.others)
  have lowest : t.load p.1 = w.load p.1 :=
    rest.others p own fun q hq => ((List.pairwise_cons.mp apart.unwritten).1 q hq).1.symm
  have here := now.sum
  have above := rest.sum
  rw [(idle.loads p own).1, (idle.loads p own).2, ← lowest] at here
  rw [dests, srcs] at above
  rw [List.map_cons, List.map_cons, number_cons, number_cons, number_cons, List.length_cons, Nat.mul_succ,
    Nat.add_comm (16 * ps.length), Nat.pow_add, Nat.mul_assoc]
  omega

end

theorem AddsAll.nil {carry : Nat} (h : s.regs.ex.toNat = carry) (small : carry ≤ 1) (idle : s.Keeps pairs t) :
    s.AddsAll pairs [] carry t where
  sum := by
    rw [idle.ex, h]
    simp [number]
  carry_le := by rw [idle.ex, h]; exact small
  others q hq _ := (idle.loads q hq).1

/-- Steps of ADX add the words of the last pairs and the carry that stands in EX. -/
theorem addsAll_of_adx {ps : List (Location × Location)} (apart : Apart pairs) (last : ps <:+ pairs)
    (carry : s.regs.ex.toNat ≤ 1) (run : CarriesOut pairs s (ps.map fun p => ⟨.adx, p.1, p.2⟩) t) :
    s.AddsAll pairs ps s.regs.ex.toNat t := by
  -- what goes along is that EX is zero or one, which the sum with ADX needs and leaves
  induction ps generalizing s with
  | nil =>
    cases run with
    | done idle => exact .nil rfl carry idle
  | cons p ps ih =>
    cases run with
    | next idle now rest =>
      rw [← idle.ex] at carry ⊢
      have adds := adds_of_adx apart (last.subset (List.mem_cons_self ..)) carry now
      have behind := ih ((List.suffix_cons p ps).trans last) adds.carry_le rest
      exact .cons (apart.of_suffix last) last.subset idle adds behind

end

end Core

/-- **Addition of long numbers.** ADD on the first pair of words and ADX on each pair behind it, in order, leave the sum
of two numbers of `n` words where the first one stood, modulo `2 ^ (16 * n)`, and in EX what is carried out of it. -/
theorem long_addition {pairs : List (Location × Location)} {s t : Core} (nonempty : pairs ≠ []) (apart : Apart pairs)
    (run : Core.CarriesOut pairs s (chained .add .adx pairs) t) :
    t.number (pairs.map Prod.fst) =
        (s.number (pairs.map Prod.fst) + s.number (pairs.map Prod.snd)) % 2 ^ (16 * pairs.length) ∧
      t.regs.ex.toNat =
        (s.number (pairs.map Prod.fst) + s.number (pairs.map Prod.snd)) / 2 ^ (16 * pairs.length) := by
  have adds : s.AddsAll pairs pairs 0 t := by
    cases pairs with
    | nil => exact absurd rfl nonempty
    | cons p ps =>
      cases run with
      | next idle now rest =>
        have first := Core.adds_of_add apart (List.mem_cons_self ..) now
        have others := Core.addsAll_of_adx apart (List.suffix_cons p ps) first.carry_le rest
        exact .cons apart (List.Subset.refl _) idle first others
  have fits := t.number_lt (pairs.map Prod.fst)
  have sum := adds.sum
  rw [List.length_map] at fits
  rw [Nat.add_zero] at sum
  rw [← sum, Nat.add_mul_mod_self_left, Nat.mod_eq_of_lt fits, Nat.add_mul_div_left _ _ (Nat.two_pow_pos _),
    Nat.div_eq_of_lt fits, Nat.zero_add]
  exact ⟨rfl, rfl⟩

/-- A machine that adds the number in C and at address 3 to the one in A and B. -/
def carrying : Machine Device where
  regs := { a := 0xffff, b := 1, c := 1 }
  mem := Memory.blank.writeFrom 0 [0x0802, 0x783a, 0x0003, 0xffff]

/-- The low words carry into the high ones, and these out of them: `0x1ffff` and `0xffff0001` make `2 ^ 32` and
`0x10000`. -/
theorem long_addition_of_carrying :
    (carrying.afterCycles 6).toCore.number [.register .a, .register .b] = 0x10000 ∧
      (carrying.afterCycles 6).regs.ex.toNat = 1 := by
  let pairs : List (Location × Location) := [(.register .a, .register .c), (.register .b, .memory 3)]
  have apart : Apart pairs := ⟨by decide, by decide⟩
  have steady : ∀ p ∈ pairs, p.1.isSteady ∧ p.2.isSteady := by decide
  let added : Core := (carrying.toCore.past.basic .add (.register .a) (.register .c)).1
  have low : Core.Executes pairs carrying.toCore.past ⟨.add, .register .a, .register .c⟩ (.register .a) (.register .c)
      added := ⟨rfl, rfl, Core.keeps_prepared steady _ _, rfl⟩
  have high : Core.Executes pairs added.past ⟨.adx, .register .b, .memory 3⟩ (.register .b) .indirectNext
      (added.past.basic .adx (.register .b) .indirectNext).1 :=
    ⟨rfl, by decide +kernel, Core.keeps_prepared steady _ _, rfl⟩
  -- the machine executes the two instructions in its first and third cycle, and nothing besides
  have start : carrying.toCore.Keeps pairs carrying.toCore.past := ⟨rfl, by decide +kernel⟩
  have between : added.Keeps pairs added.past := ⟨rfl, by decide +kernel⟩
  have behind : (added.past.basic .adx (.register .b) .indirectNext).1.Keeps pairs (carrying.afterCycles 6).toCore :=
    ⟨by decide +kernel, by decide +kernel⟩
  have run : Core.CarriesOut pairs carrying.toCore (chained .add .adx pairs) (carrying.afterCycles 6).toCore :=
    .next start low (.next between high (.done behind))
  have numbers : carrying.toCore.number [.register .a, .register .b] = 0x1ffff ∧
      carrying.toCore.number [.register .c, .memory 3] = 0xffff0001 := by decide +kernel
  have sums := long_addition (by decide) apart run
  simp only [pairs, List.map_cons, List.map_nil, numbers] at sums
  exact sums

end Dcpu16
