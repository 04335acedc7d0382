import Dcpu16.Core
import Mathlib.Data.Finset.Card
import Mathlib.Data.Nat.Find

/-!
# Skipping follows the instructions

A skip goes from instruction to instruction up to the first that is not conditional. The walk from an address has only
as many different addresses as there are words, so it comes to such an instruction within that many steps or never
(`FirstPlain.lt_count`), and where there is one the skip ends behind it (`skip_of_firstPlain`).
-/

namespace Dcpu16

namespace Memory

/-- The address behind the instruction at an address. -/
def behind (mem : Memory) (p : Word) : Word := p + UInt16.ofNat (mem.read p).instructionLength

/-- The address of an instruction on the walk from an address on; the one there has the number zero. -/
def stop (mem : Memory) (p : Word) : (k : Nat) → Word
  | 0 => p
  | k + 1 => mem.behind (mem.stop p k)

/-- On the walk from an address the `k`-th instruction is the first that is not conditional. -/
def FirstPlain (mem : Memory) (p : Word) (k : Nat) : Prop :=
  (∀ i < k, (mem.read (mem.stop p i)).isConditional) ∧ (mem.read (mem.stop p k)).isConditional = false

instance (mem : Memory) (p : Word) (k : Nat) : Decidable (mem.FirstPlain p k) := inferInstanceAs (Decidable (_ ∧ _))

section
variable {mem : Memory} {p : Word} {i j k : Nat}

theorem stop_succ : mem.stop p (k + 1) = mem.stop (mem.behind p) k := by
  induction k with
  | zero => rfl
  | succ k ih => exact congrArg mem.behind ih

theorem stop_add : mem.stop p (i + k) = mem.stop (mem.stop p i) k := by
  induction k with
  | zero => rfl
  | succ k ih => exact congrArg mem.behind ih

theorem firstPlain_zero : mem.FirstPlain p 0 ↔ (mem.read p).isConditional = false := by
  simp [FirstPlain, stop]

theorem firstPlain_succ : mem.FirstPlain p (k + 1) ↔ (mem.read p).isConditional ∧ mem.FirstPlain (mem.behind p) k := by
  unfold FirstPlain
  rw [stop_succ, ← and_assoc]
  refine and_congr_left' ⟨fun h => ⟨h 0 (Nat.succ_pos k), fun i hi => ?_⟩, ?_⟩
  · rw [← stop_succ]
    exact h (i + 1) (Nat.succ_lt_succ hi)
  · rintro ⟨first, rest⟩ (_ | i) hi
    · exact first
    · rw [stop_succ]
      exact rest i (Nat.lt_of_succ_lt_succ hi)

/-- Before its first plain instruction the walk does not come back to an address. -/
theorem FirstPlain.stop_ne (h : mem.FirstPlain p k) (hij : i < j) (hj : j ≤ k) : mem.stop p i ≠ mem.stop p j := by
  intro same
  -- from `j` on the walk would go as from `i` on, so it would meet the plain instruction earlier
  have earlier : mem.stop p (i + (k - j)) = mem.stop p k := by
    rw [stop_add, same, ← stop_add, Nat.add_sub_cancel' hj]
  have conditional := h.1 (i + (k - j)) (by omega)
  rw [earlier, h.2] at conditional
  cases conditional

/-- The walk has as many steps as there are words to come to a plain instruction. -/
theorem FirstPlain.lt_count (h : mem.FirstPlain p k) : k < Word.count := by
  have card : (Finset.range (k + 1)).card ≤ (Finset.range Word.count).card := by
    apply Finset.card_le_card_of_injOn fun i => (mem.stop p i).toNat
    · intro i _
      exact Finset.mem_coe.mpr (Finset.mem_range.mpr (mem.stop p i).toNat_lt)
    · intro i hi j hj same
      have hi : i < k + 1 := Finset.mem_range.mp (Finset.mem_coe.mp hi)
      have hj : j < k + 1 := Finset.mem_range.mp (Finset.mem_coe.mp hj)
      have same : mem.stop p i = mem.stop p j := UInt16.toNat_inj.mp same
      rcases Nat.lt_trichotomy i j with before | rfl | behind
      · exact absurd same (h.stop_ne before (by omega))
      · rfl
      · exact absurd same.symm (h.stop_ne behind (by omega))
  rwa [Finset.card_range, Finset.card_range] at card

end

end Memory

namespace Core

open Memory

theorem skipFrom_eq_some_iff {mem : Memory} {fuel : Nat} {p q : Word} {passed n : Nat} :
    skipFrom mem fuel p passed = some (q, n) ↔
      ∃ k < fuel, mem.FirstPlain p k ∧ q = mem.stop p (k + 1) ∧ n = passed + (k + 1) := by
  induction fuel generalizing p passed with
  | zero => simp [skipFrom]
  | succ fuel ih =>
    simp only [skipFrom]
    cases hc : (mem.read p).isConditional with
    | false =>
      rw [if_neg Bool.false_ne_true, Option.some.injEq, Prod.mk.injEq]
      constructor
      · rintro ⟨rfl, rfl⟩
        exact ⟨0, Nat.succ_pos fuel, firstPlain_zero.mpr hc, rfl, rfl⟩
      · rintro ⟨_ | k, -, plain, rfl, rfl⟩
        · exact ⟨rfl, rfl⟩
        · cases hc.symm.trans (firstPlain_succ.mp plain).1
    | true =>
      rw [if_pos rfl, ih]
      constructor
      · rintro ⟨k, hk, plain, rfl, rfl⟩
        refine ⟨k + 1, Nat.succ_lt_succ hk, firstPlain_succ.mpr ⟨hc, plain⟩, stop_succ.symm, ?_⟩
        omega
      · rintro ⟨_ | k, hk, plain, rfl, rfl⟩
        · cases hc.symm.trans (firstPlain_zero.mp plain)
        · refine ⟨k, Nat.lt_of_succ_lt_succ hk, (firstPlain_succ.mp plain).2, stop_succ, ?_⟩
          omega

/-- **A skip passes over the instructions up to the first that is not conditional**, and that one with them. -/
theorem skip_of_firstPlain {s : Core} {k : Nat} (h : s.mem.FirstPlain s.regs.pc k) :
    s.skip = ({ s with regs.pc := s.mem.stop s.regs.pc (k + 1) }, k + 1) := by
  have ends : skipFrom s.mem Word.count s.regs.pc 0 = some (s.mem.stop s.regs.pc (k + 1), k + 1) :=
    skipFrom_eq_some_iff.mpr ⟨k, h.lt_count, h, rfl, (Nat.zero_add _).symm⟩
  rw [skip, ends]

/-- The core once PC has passed the whole instruction that stands there. -/
def beyond (s : Core) : Core := { s with regs.pc := s.mem.behind s.regs.pc }

theorem skip_of_plain {s : Core} (h : s.fetch.isConditional = false) : s.skip = (s.beyond, 1) :=
  skip_of_firstPlain (firstPlain_zero.mpr h)

theorem skip_of_conditional {s : Core} (h : s.fetch.isConditional) {k : Nat}
    (ends : s.mem.FirstPlain s.beyond.regs.pc k) : s.skip = (s.beyond.skip.1, s.beyond.skip.2 + 1) := by
  have here := skip_of_firstPlain (s := s) (firstPlain_succ.mpr ⟨h, ends⟩)
  have there := skip_of_firstPlain (s := s.beyond) ends
  rw [here, there, stop_succ]
  rfl

end Core

end Dcpu16
