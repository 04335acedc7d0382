import Dcpu16.Proofs.Arithmetic
import Mathlib.Algebra.Ring.Int.Defs
import Mathlib.Algebra.Ring.Nat

/-!
# What arithmetic computes

Words are numbers below `2 ^ 16`, or signed ones. The result of an operation and EX are together the exact sum, product,
quotient or shifted number, as far as two words hold it: EX above the result where numbers grow, and below it, as a
fraction, where they shrink (`arithmetic_results`).
-/

namespace Dcpu16

/-- **What arithmetic computes** from the value `b` of its destination, the value `a` of its source and EX: `r` is what
an operation stores, and `e` is what it leaves in EX. -/
structure Arithmetic (b a ex : Word) (r e : BasicOp → Word) : Prop where
  add : (e .add).toNat * 2 ^ 16 + (r .add).toNat = b.toNat + a.toNat
  sub : ((r .sub).toNat : Int) = ((b.toNat : Int) - a.toNat) % 2 ^ 16 ∧
    e .sub = if b.toNat < a.toNat then 0xffff else 0
  mul : (e .mul).toNat * 2 ^ 16 + (r .mul).toNat = b.toNat * a.toNat
  mli : ((e .mli).toNat * 2 ^ 16 + (r .mli).toNat : Int) = b.signed * a.signed % 2 ^ 32
  div (nonzero : a ≠ 0) : (r .div).toNat * 2 ^ 16 + (e .div).toNat = b.toNat * 2 ^ 16 / a.toNat
  mod (nonzero : a ≠ 0) :
    b.toNat = a.toNat * (b.toNat / a.toNat) + (r .mod).toNat ∧ (r .mod).toNat < a.toNat ∧ e .mod = ex
  /-- Signed quotients are cut off toward zero. -/
  dvi (nonzero : a ≠ 0) : ((r .dvi).toNat : Int) = b.signed.tdiv a.signed % 2 ^ 16 ∧
    ((e .dvi).toNat : Int) = (b.signed * 2 ^ 16).tdiv a.signed % 2 ^ 16
  mdi (nonzero : a ≠ 0) : b.signed = a.signed * b.signed.tdiv a.signed + (r .mdi).signed ∧ e .mdi = ex
  shl : (e .shl).toNat * 2 ^ 16 + (r .shl).toNat = b.toNat * 2 ^ a.toNat % 2 ^ 32
  shr : (r .shr).toNat * 2 ^ 16 + (e .shr).toNat = b.toNat * 2 ^ 16 / 2 ^ a.toNat
  /-- Division rounds down here. -/
  asr : ((r .asr).toNat * 2 ^ 16 + (e .asr).toNat : Int) = b.signed * 2 ^ 16 / 2 ^ a.toNat % 2 ^ 32
  adx : (r .adx).toNat = (b.toNat + a.toNat + ex.toNat) % 2 ^ 16 ∧
    e .adx = if 0xffff < b.toNat + a.toNat + ex.toNat then 1 else 0
  sbx : ((r .sbx).toNat : Int) = ((b.toNat : Int) - a.toNat + ex.toNat) % 2 ^ 16 ∧
    e .sbx = if (b.toNat : Int) - a.toNat + ex.toNat < 0 then 0xffff
      else if 0xffff < (b.toNat : Int) - a.toNat + ex.toNat then 1 else 0

/-! ## Two words -/

namespace Word

theorem signed_bounds (w : Word) : -0x8000 ≤ w.signed ∧ w.signed < 0x8000 := by
  have := w.toNat_lt
  unfold signed
  split <;> omega

/-- A number in the range of signed words is read back. -/
theorem signed_ofInt {n : Int} (low : -0x8000 ≤ n) (high : n < 0x8000) : (ofInt n).signed = n := by
  have := toNat_ofInt n
  unfold signed
  split <;> omega

/-- The low word of a number and the one above it are the number, as far as two words hold it. -/
theorem two_words (n : Int) : ((ofInt (n / 0x10000)).toNat * 2 ^ 16 + (ofInt n).toNat : Int) = n % 2 ^ 32 := by
  rw [toNat_ofInt, toNat_ofInt]
  omega

theorem two_words_of_lt {n : Nat} (h : n < 2 ^ 32) :
    (ofInt ((n : Int) / 0x10000)).toNat * 2 ^ 16 + (ofInt n).toNat = n := by
  have := two_words n
  omega

theorem mul_lt (b a : Word) : b.toNat * a.toNat < 2 ^ 32 := by
  have := Nat.mul_lt_mul'' b.toNat_lt a.toNat_lt
  rwa [← Nat.pow_add] at this

/-- A word in front of a fraction that is made smaller is still one. -/
theorem fraction_lt (b : Word) (n : Nat) : b.toNat * 2 ^ 16 / n < 2 ^ 32 := by
  have := Nat.div_le_self (b.toNat * 2 ^ 16) n
  have := b.toNat_lt
  omega

/-- The remainder of a truncated division of words is a signed word. -/
theorem tmod_bounds (b a : Word) : -0x8000 ≤ b.signed.tmod a.signed ∧ b.signed.tmod a.signed < 0x8000 := by
  have bounds := signed_bounds b
  have size := Int.natAbs_tmod b.signed a.signed
  have smaller := Nat.mod_le b.signed.natAbs a.signed.natAbs
  rcases Int.le_total 0 b.signed with positive | negative
  · have := Int.tmod_nonneg a.signed positive
    omega
  · have := Int.tmod_nonneg a.signed (Int.neg_nonneg_of_nonpos negative)
    rw [Int.neg_tmod] at this
    omega

theorem toNat_ne_zero {w : Word} (h : w ≠ 0) : w.toNat ≠ 0 := fun zero => h (UInt16.toNat_inj.mp zero)

end Word

/-! ## Operation by operation -/

section
variable {b a ex : Word} {r e : BasicOp → Word}

/-- Arithmetic is what the effects of the operations store and leave in EX. -/
theorem Arithmetic.of_effects
    (h : ∀ (op : BasicOp) {v x : Word}, (op.effect b a ex).results? ex = some (v, x) → r op = v ∧ e op = x) :
    Arithmetic b a ex r e where
  add := by
    obtain ⟨stored, excess⟩ := h .add rfl
    have := b.toNat_lt
    have := a.toNat_lt
    rw [stored, excess, ← Int.natCast_add, Word.two_words_of_lt]
    omega
  sub := by
    obtain ⟨stored, excess⟩ := h .sub rfl
    have := b.toNat_lt
    have := a.toNat_lt
    refine ⟨?_, excess⟩
    rw [stored, UInt16.toNat_sub]
    omega
  mul := by
    obtain ⟨stored, excess⟩ := h .mul rfl
    rw [stored, excess, ← Int.natCast_mul, Word.two_words_of_lt (Word.mul_lt b a)]
  mli := by
    obtain ⟨stored, excess⟩ := h .mli rfl
    rw [stored, excess, Word.two_words]
  div nonzero := by
    have effect : BasicOp.div.effect b a ex = .fraction (b.toNat * 0x10000 / a.toNat) := if_neg nonzero
    obtain ⟨stored, excess⟩ := h .div (congrArg _ effect)
    rw [stored, excess]
    exact Word.two_words_of_lt (Word.fraction_lt b a.toNat)
  mod nonzero := by
    have effect : BasicOp.mod.effect b a ex = .store (b % a) := congrArg _ (if_neg nonzero)
    obtain ⟨stored, excess⟩ := h .mod (congrArg _ effect)
    rw [stored, UInt16.toNat_mod]
    exact ⟨(Nat.div_add_mod ..).symm, Nat.mod_lt _ (Nat.pos_of_ne_zero (Word.toNat_ne_zero nonzero)), excess⟩
  dvi nonzero := by
    have effect : BasicOp.dvi.effect b a ex =
        .storeEx (.ofInt (b.signed.tdiv a.signed)) (.ofInt ((b.signed * 0x10000).tdiv a.signed)) := if_neg nonzero
    obtain ⟨stored, excess⟩ := h .dvi (congrArg _ effect)
    rw [stored, excess]
    exact ⟨Word.toNat_ofInt _, Word.toNat_ofInt _⟩
  mdi nonzero := by
    have effect : BasicOp.mdi.effect b a ex = .store (.ofInt (b.signed.tmod a.signed)) := congrArg _ (if_neg nonzero)
    obtain ⟨stored, excess⟩ := h .mdi (congrArg _ effect)
    obtain ⟨low, high⟩ := Word.tmod_bounds b a
    rw [stored, Word.signed_ofInt low high]
    exact ⟨(Int.mul_tdiv_add_tmod ..).symm, excess⟩
  shl := by
    obtain ⟨stored, excess⟩ := h .shl rfl
    have words := Word.two_words (b.toNat <<< a.toNat : Nat)
    rw [stored, excess, ← Nat.shiftLeft_eq]
    omega
  shr := by
    obtain ⟨stored, excess⟩ := h .shr rfl
    rw [stored, excess, Nat.shiftRight_eq_div_pow]
    exact Word.two_words_of_lt (Word.fraction_lt b _)
  asr := by
    obtain ⟨stored, excess⟩ := h .asr rfl
    rw [stored, excess, Word.two_words, Int.shiftRight_eq_div_pow, Int.natCast_pow]
    rfl
  adx := by
    obtain ⟨stored, excess⟩ := h .adx rfl
    rw [stored]
    exact ⟨UInt16.toNat_ofNat', excess⟩
  sbx := by
    obtain ⟨stored, excess⟩ := h .sbx rfl
    rw [stored]
    exact ⟨Word.toNat_ofInt _, excess⟩

end

/-- **Arithmetic computes its results.** Whatever the operands of a basic operation are, if it writes to a general
register or a word of memory, then what stands there behind it, and in EX, is what arithmetic computes from what the
place held before, what is read from the source, and EX. -/
theorem arithmetic_results {s : Core} {b a : Operand} (cell : (s.destination b a).isCell) :
    Arithmetic (s.load (s.destination b a)) (s.source a) s.regs.ex
      (fun op => (s.basic op b a).1.load (s.destination b a)) (fun op => (s.basic op b a).1.regs.ex) := by
  apply Arithmetic.of_effects
  intro op v x effect
  rw [← Core.load_prepared (Location.isSteady_of_isCell cell) b a] at effect
  have left := s.leaves (Location.isWritable_of_isCell cell) effect
  exact ⟨left.stored, left.excess⟩

/-- The least signed word stands at an address that an offset leads to. -/
def dividing : Core where
  regs := { i := 2, pc := 1 }
  mem := Memory.blank.writeFrom 1 [0x0001, 0x0000, 0x8000]

/-- Divided by minus one it is itself, since the quotient is one more than signed words reach, and nothing is left. -/
theorem arithmetic_results_of_dividing :
    dividing.destination (.indirectOffset .i) (.literal 0xffff) = .memory 3 ∧
      (dividing.basic .dvi (.indirectOffset .i) (.literal 0xffff)).1.load (.memory 3) = 0x8000 ∧
      ((dividing.basic .mdi (.indirectOffset .i) (.literal 0xffff)).1.load (.memory 3)).signed = 0 := by
  have place : dividing.destination (.indirectOffset .i) (.literal 0xffff) = .memory 3 := by decide +kernel
  have computes :=
    arithmetic_results (s := dividing) (b := .indirectOffset .i) (a := .literal 0xffff) (by rw [place]; rfl)
  have held : dividing.load (.memory 3) = 0x8000 := by decide +kernel
  have divisor : dividing.source (.literal 0xffff) = 0xffff := rfl
  rw [place, held, divisor] at computes
  refine ⟨place, ?_, ?_⟩
  · apply UInt16.toNat_inj.mp
    exact Int.ofNat_inj.mp (computes.dvi (by decide)).1
  · have split := (computes.mdi (by decide)).1
    have exact_quotient : (0x8000 : Word).signed = -0x8000 ∧
        (0xffff : Word).signed * (0x8000 : Word).signed.tdiv (0xffff : Word).signed = -0x8000 := by decide
    omega

end Dcpu16
