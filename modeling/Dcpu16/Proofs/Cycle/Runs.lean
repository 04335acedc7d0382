import Dcpu16.Machine.Run
import Dcpu16.Proofs.Cycle.Accounting
import Dcpu16.Proofs.Except

/-!
# Runs of cycles

A run goes through its cycles up to the first that returns a fault (`run_cases`), and one run behind another is the run
over both (`run_add`). While something is owed a run leaves registers and memory alone and fetches nothing.
-/

namespace Dcpu16.Machine

variable {δ : Type} [Peripheral δ]

/-- None of the next `n` cycles returns a fault. -/
def Unerring (m : Machine δ) (n : Nat) : Prop := ∀ k < n, ∃ executed, (m.afterCycles k).cycle.2 = .ok executed

instance (m : Machine δ) (n : Nat) : Decidable (m.Unerring n) :=
  decidable_of_iff (∀ k < n, (m.afterCycles k).cycle.2.isOk) (forall₂_congr fun _ _ => isOk_iff)

/-- The machine once what it owes is paid. -/
def settled (m : Machine δ) : Machine δ := m.afterCycles m.sleep

section
variable {m : Machine δ} {n : Nat}

/-! ## Cycle by cycle -/

theorem afterCycles_add (m : Machine δ) (a b : Nat) : m.afterCycles (a + b) = (m.afterCycles a).afterCycles b := by
  induction a generalizing m with
  | zero => rw [Nat.zero_add, afterCycles]
  | succ a ih => rw [Nat.succ_add, afterCycles, afterCycles, ih]

theorem afterCycles_succ (m : Machine δ) (n : Nat) : m.afterCycles (n + 1) = (m.afterCycles n).cycle.1 :=
  afterCycles_add m n 1

theorem fetches_add (m : Machine δ) (a b : Nat) : m.fetches (a + b) = m.fetches a ++ (m.afterCycles a).fetches b := by
  induction a generalizing m with
  | zero =>
    rw [Nat.zero_add]
    rfl
  | succ a ih =>
    rw [Nat.succ_add, fetches_succ, fetches_succ, ih, afterCycles]
    split <;> rfl

theorem unerring_succ : m.Unerring (n + 1) ↔ (∃ executed, m.cycle.2 = .ok executed) ∧ m.cycle.1.Unerring n := by
  constructor
  · intro h
    exact ⟨h 0 (Nat.succ_pos n), fun k hk => h (k + 1) (Nat.succ_lt_succ hk)⟩
  · rintro ⟨first, rest⟩ (_ | k) hk
    · exact first
    · exact rest k (Nat.lt_of_succ_lt_succ hk)

theorem Unerring.mono {k : Nat} (h : m.Unerring n) (hk : k ≤ n) : m.Unerring k :=
  fun j hj => h j (Nat.lt_of_lt_of_le hj hk)

theorem Unerring.behind {k : Nat} (h : m.Unerring (k + n)) : (m.afterCycles k).Unerring n := by
  intro j hj
  rw [← afterCycles_add]
  exact h (k + j) (Nat.add_lt_add_left hj k)

theorem running_of_ok {executed : Option Instruction} (h : m.cycle.2 = .ok executed) :
    m.status = .running ∧ m.cycle.1.status = .running := by
  apply running_of_outcome
  rw [h]

theorem running_of_unerring (h : m.Unerring n) (runs : m.status = .running) : (m.afterCycles n).status = .running := by
  cases n with
  | zero => exact runs
  | succ n =>
    obtain ⟨_, ok⟩ := h n (Nat.lt_succ_self n)
    rw [afterCycles_succ]
    exact (running_of_ok ok).2

theorem cycles_cycle (h : m.status = .running) : m.cycle.1.cycles = m.cycles + 1 :=
  (counters_cycle h).1.trans cycles_advanced

theorem cycles_afterCycles (h : m.Unerring n) : (m.afterCycles n).cycles = m.cycles + n := by
  induction n generalizing m with
  | zero => rfl
  | succ n ih =>
    obtain ⟨⟨_, ok⟩, rest⟩ := unerring_succ.mp h
    rw [afterCycles, ih rest, cycles_cycle (running_of_ok ok).1]
    omega

/-! ## Cycles that are owed -/

theorem sleep_cycle_of_asleep (h : m.status = .running) (asleep : 0 < m.sleep) : m.cycle.1.sleep = m.sleep - 1 := by
  rw [(counters_cycle h).2, advanced_of_sleep m asleep]

theorem toCore_cycle_of_asleep (asleep : 0 < m.sleep) : m.cycle.1.toCore = m.toCore := by
  by_cases h : m.status = .running
  · rw [toCore_cycle h, advanced_of_sleep m asleep]
  · rw [cycle_of_stopped m h]

/-- While something is owed, registers and memory stay, and nothing is fetched. -/
theorem owed_afterCycles (h : n ≤ m.sleep) : (m.afterCycles n).toCore = m.toCore ∧ m.fetches n = [] := by
  induction n generalizing m with
  | zero => exact ⟨rfl, rfl⟩
  | succ n ih =>
    have asleep : 0 < m.sleep := by omega
    have idle : ¬ m.Fetches := fun fetches => Nat.ne_of_gt asleep fetches.2
    rw [afterCycles, fetches_succ, if_neg idle, ← toCore_cycle_of_asleep asleep]
    by_cases hm : m.status = .running
    · have left := sleep_cycle_of_asleep hm asleep
      exact ih (by omega)
    · -- a machine that does not run changes no more, so it has nothing left to show
      rw [cycle_of_stopped m hm, afterCycles_of_stopped hm]
      exact ⟨rfl, fetches_of_stopped hm n⟩

theorem idle_afterCycles (h : n < m.sleep) : ¬ (m.afterCycles n).Fetches := by
  intro fetches
  have none := (owed_afterCycles (Nat.succ_le_of_lt h)).2
  rw [fetches_add m n 1, fetches_succ, if_pos fetches] at none
  exact absurd none (by simp)

theorem toCore_settled (m : Machine δ) : m.settled.toCore = m.toCore := (owed_afterCycles (Nat.le_refl m.sleep)).1

/-- What is left of a machine that has paid fetches, unless it burns. -/
theorem fetches_settled (h : m.settled.status = .running) : m.settled.Fetches := by
  obtain ⟨_, _, paid⟩ := paid_afterCycles (running_of_afterCycles h) (Nat.le_refl m.sleep) h
  refine ⟨h, ?_⟩
  rw [settled, paid]
  exact Nat.sub_self m.sleep

/-- Nothing is fetched while the instruction at PC is paid, nor behind a fire or an overflow. -/
theorem fetches_cycle_of_lt (h : m.Fetches) (hn : n < m.cost) : m.cycle.1.fetches n = [] := by
  by_cases runs : m.cycle.1.status = .running
  · have charge := sleep_cycle h (fits_of_running h runs)
    exact (owed_afterCycles (by omega)).2
  · exact fetches_of_stopped runs n

theorem fetches_of_lt (h : m.settled.status = .running) {k : Nat} (hk : k < m.settled.cost) :
    m.fetches (m.sleep + (k + 1)) = [m.settled] := by
  have fetches := fetches_settled h
  rw [fetches_add, (owed_afterCycles (Nat.le_refl m.sleep)).2, List.nil_append]
  show m.settled.fetches (k + 1) = [m.settled]
  rw [fetches_succ, if_pos fetches, fetches_cycle_of_lt fetches hk]

/-- Up to the end of the instruction at PC no other one is fetched. -/
theorem fetches_of_le (h : n ≤ m.sleep + m.settled.cost) : m.fetches n = [] ∨ m.fetches n = [m.settled] := by
  rcases Nat.lt_or_ge m.sleep n with more | owed
  · obtain ⟨k, rfl⟩ : ∃ k, n = m.sleep + (k + 1) := ⟨n - m.sleep - 1, by omega⟩
    by_cases hs : m.settled.status = .running
    · exact .inr (fetches_of_lt hs (by omega))
    · rw [fetches_add, (owed_afterCycles (Nat.le_refl m.sleep)).2, List.nil_append]
      exact .inl (fetches_of_stopped hs _)
  · exact .inl (owed_afterCycles owed).2

/-! ## Whole runs -/

/-- A run goes through all its cycles, or stops behind the first that returns a fault. -/
theorem run_cases (m : Machine δ) (n : Nat) :
    m.Unerring n ∧ m.run n = (m.afterCycles n, .ok ()) ∨
      ∃ k < n, ∃ e, m.Unerring k ∧ (m.afterCycles k).cycle.2 = .error e ∧
        m.run n = (m.afterCycles (k + 1), .error e) := by
  induction n generalizing m with
  | zero => exact .inl ⟨fun k hk => absurd hk (Nat.not_lt_zero k), rfl⟩
  | succ n ih =>
    rw [run]
    rcases hc : m.cycle with ⟨m', outcome⟩
    have behind : m.cycle.1 = m' := by rw [hc]
    have returned : m.cycle.2 = outcome := by rw [hc]
    cases outcome with
    | error e =>
      refine .inr ⟨0, Nat.succ_pos n, e, fun k hk => absurd hk (Nat.not_lt_zero k), returned, ?_⟩
      rw [← behind]
      rfl
    | ok executed =>
      have first : ∃ executed, m.cycle.2 = .ok executed := ⟨executed, returned⟩
      rw [← behind]
      rcases ih m.cycle.1 with ⟨rest, whole⟩ | ⟨k, hk, e, rest, fault, stopped⟩
      · exact .inl ⟨unerring_succ.mpr ⟨first, rest⟩, whole⟩
      · exact .inr ⟨k + 1, Nat.succ_lt_succ hk, e, unerring_succ.mpr ⟨first, rest⟩, fault, stopped⟩

theorem run_eq_ok {m' : Machine δ} : m.run n = (m', .ok ()) ↔ m.Unerring n ∧ m' = m.afterCycles n := by
  rcases run_cases m n with ⟨unerring, whole⟩ | ⟨k, hk, e, -, fault, stopped⟩
  · rw [whole, Prod.mk.injEq, eq_comm]
    simp [unerring]
  · rw [stopped]
    constructor
    · intro h
      cases h
    · rintro ⟨unerring, -⟩
      obtain ⟨_, ok⟩ := unerring k hk
      cases fault.symm.trans ok

theorem run_add (m : Machine δ) (a b : Nat) :
    m.run (a + b) = match m.run a with
      | (m, .error e) => (m, .error e)
      | (m, .ok ()) => m.run b := by
  induction a generalizing m with
  | zero => rw [Nat.zero_add, run]
  | succ a ih =>
    rw [Nat.succ_add, run, run]
    split
    · rfl
    · exact ih _

/-- A run that is not stopped counts its cycles. -/
theorem runCounted_of_run {m' : Machine δ} (h : m.run n = (m', .ok ())) : m.runCounted n = (m', .ok n) := by
  obtain ⟨unerring, rfl⟩ := run_eq_ok.mp h
  simp only [runCounted, h, Except.map, cycles_afterCycles unerring, Nat.add_sub_cancel_left]

/-! ## Runs past reserved words -/

/-- Behind a cycle that returns a fault other than a reserved word the machine does not run. -/
theorem stopped_of_fault {e : Fault} (fault : m.cycle.2 = .error e) (other : ∀ d, e ≠ .decode d) :
    m.cycle.1.status ≠ .running := by
  intro behind
  have before : m.status = .running := running_of_cycle behind
  rw [outcome_cycle before behind] at fault
  rcases Nat.eq_zero_or_pos m.sleep with awake | asleep
  · have fetched := outcome_advance (m := { m with cycles := m.cycles + 1 }) awake
    rw [fault] at fetched
    split at fetched
    · cases fetched
    · exact absurd (Except.error.inj fetched) (other _)
  · rw [advance, if_pos asleep] at fault
    cases fault

/-- A run that passes over reserved words goes through all its cycles, unless the machine stops. -/
theorem runThrough_eq (m : Machine δ) (n : Nat) (t : Tally) : (m.runThrough n t).1 = m.afterCycles n := by
  induction n generalizing m t with
  | zero => rfl
  | succ n ih =>
    rw [runThrough, afterCycles]
    split
    · next m' behind => rw [ih, behind]
    · next m' i behind => rw [ih, behind]
    · next m' d behind => rw [ih, behind]
    · next m' e other behind =>
      have fault : m.cycle.2 = .error e := by rw [behind]
      rw [afterCycles_of_stopped (stopped_of_fault fault other), behind]

end

end Dcpu16.Machine
