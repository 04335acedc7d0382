import Dcpu16.Proofs.Core
import Dcpu16.Proofs.Interrupts.Order

/-!
# The parts of a cycle

What the devices leave alone in a cycle, and what happens to the counters. The devices change neither registers nor
memory nor the queueing flag, and put messages behind those that wait (`interrupts_cycleAll`); a cycle is counted once,
whatever it executes (`cycles_advanced`).
-/

namespace Dcpu16.Machine

open QueueEvent

variable {δ : Type}

/-- The machine fetches in its next cycle. -/
def Fetches (m : Machine δ) : Prop := m.status = .running ∧ m.sleep = 0

instance (m : Machine δ) : Decidable m.Fetches := inferInstanceAs (Decidable (_ ∧ _))

variable [Peripheral δ]

/-! ## Devices -/

section
variable (ds : List δ) (q : InterruptQueue)

theorem queueing_cycleAll : (cycleAll ds q).2.1.queueing = q.queueing := by
  induction ds generalizing q with
  | nil => rfl
  | cons d ds ih =>
    unfold cycleAll
    split
    · exact ih q
    · split
      · next hpush => rw [← (InterruptQueue.pending_push hpush).2]; exact ih _
      · rfl

/-- The devices put the messages that are accepted behind those that wait. -/
theorem interrupts_cycleAll :
    (cycleAll ds q).2.1 = { q with pending := q.pending ++ acceptedIn (cycleAllEvents ds q) } := by
  have pending := (queueTrace_cycleAll ds q).conserved
  rw [takenIn_cycleAllEvents, List.nil_append] at pending
  have queueing := queueing_cycleAll ds q
  cases h : (cycleAll ds q).2.1
  simp only [h] at pending queueing
  rw [pending, queueing]

/-- The devices cost nothing. -/
theorem status_cycleAll_ne : (cycleAll ds q).2.2 ≠ .overflowed := by
  induction ds generalizing q with
  | nil => rintro ⟨⟩
  | cons d ds ih =>
    unfold cycleAll
    split
    · exact ih q
    · split
      · exact ih _
      · rintro ⟨⟩

/-- The devices set the machine on fire with a message that is refused, and only so. -/
theorem status_cycleAll :
    (cycleAll ds q).2.2 = .running ∧ refusedIn (cycleAllEvents ds q) = [] ∨
      ∃ msg, (cycleAll ds q).2.2 = .onFire msg ∧ refusedIn (cycleAllEvents ds q) = [msg] := by
  rcases (queueTrace_cycleAll ds q).refused_eq rfl with ⟨cool, accepted⟩ | ⟨msg, onFire, refused, -⟩
  · cases status : (cycleAll ds q).2.2 with
    | running => exact .inl ⟨rfl, accepted⟩
    | onFire msg => exact absurd status (cool msg)
    | overflowed => exact absurd status (status_cycleAll_ne ds q)
  · exact .inr ⟨msg, onFire, refused⟩

end

section
variable {m : Machine δ}

theorem toCore_cycle (h : m.status = .running) : m.cycle.1.toCore = m.advanced.toCore := by
  rw [cycle_of_running m h]
  split <;> rfl

theorem queueing_cycle (h : m.status = .running) :
    m.cycle.1.interrupts.queueing = m.advanced.interrupts.queueing := by
  rw [cycle_of_running m h]
  split
  · exact queueing_cycleAll _ _
  · rfl

theorem counters_cycle (h : m.status = .running) :
    m.cycle.1.cycles = m.advanced.cycles ∧ m.cycle.1.sleep = m.advanced.sleep := by
  rw [cycle_of_running m h]
  split <;> exact ⟨rfl, rfl⟩

/-- A cycle returns what was executed in it, if the machine runs behind it. -/
theorem outcome_cycle (h : m.status = .running) (runs : m.cycle.1.status = .running) :
    m.cycle.2 = ({ m with cycles := m.cycles + 1 } : Machine δ).advance.2 := by
  have check : m.cycle.1.checkRunning = .ok () := by rw [checkRunning, runs]
  simp only [cycle, h] at check ⊢
  rw [check]

/-- A cycle behind which the machine does not run returns only why. -/
theorem outcome_cycle_of_stopped {e : Fault} (check : m.cycle.1.checkRunning = .error e) : m.cycle.2 = .error e := by
  cases status : m.status with
  | running =>
    simp only [cycle, status] at check ⊢
    rw [check]
  | onFire _ | overflowed =>
    simp only [cycle, checkRunning, status] at check ⊢
    cases check
    rfl

theorem outcome_cycle_of_onFire {msg : Word} (burns : m.cycle.1.status = .onFire msg) :
    m.cycle.2 = .error (.onFire msg) :=
  outcome_cycle_of_stopped (by rw [checkRunning, burns])

theorem outcome_cycle_of_overflowed (leaves : m.cycle.1.status = .overflowed) : m.cycle.2 = .error .overflow :=
  outcome_cycle_of_stopped (by rw [checkRunning, leaves])

/-- A machine that runs behind a cycle has run before it. -/
theorem running_of_cycle (runs : m.cycle.1.status = .running) : m.status = .running := by
  by_cases before : m.status = .running
  · exact before
  · rwa [cycle_of_stopped m before] at runs

/-- A cycle that returns no fault but a reserved word finds the machine running and leaves it so. -/
theorem running_of_outcome (h : m.cycle.2 matches .ok _ | .error (.decode _)) :
    m.status = .running ∧ m.cycle.1.status = .running := by
  have behind : m.cycle.1.status = .running := by
    cases status : m.cycle.1.status with
    | running => rfl
    | onFire msg =>
      rw [outcome_cycle_of_onFire status] at h
      cases h
    | overflowed =>
      rw [outcome_cycle_of_overflowed status] at h
      cases h
  exact ⟨running_of_cycle behind, behind⟩

/-- A machine that runs when the devices have their cycle catches fire with a message of theirs that is refused, and
only so. -/
theorem status_cycle (h : m.status = .running) (advances : m.advanced.isRunning) :
    m.cycle.1.status = .running ∧ refusedIn m.deviceEvents = [] ∨
      ∃ msg, m.cycle.1.status = .onFire msg ∧ refusedIn m.deviceEvents = [msg] := by
  have events : m.deviceEvents = cycleAllEvents m.advanced.devices m.advanced.interrupts := by
    rw [deviceEvents, if_pos ⟨m.isRunning_iff.mpr h, advances⟩]
  have behind : m.cycle.1 = m.advanced.cycleDevices := by rw [cycle_of_running m h, if_pos advances]
  rw [events, behind]
  exact status_cycleAll m.advanced.devices m.advanced.interrupts

/-! ## Execution and delivery -/

omit [Peripheral δ] in
theorem cycles_raise (msg : Word) : (m.raise msg).cycles = m.cycles := by
  unfold raise
  split <;> rfl

omit [Peripheral δ] in
theorem counters_deliver : m.deliver.cycles = m.cycles ∧ m.deliver.sleep = m.sleep := by
  unfold deliver
  split
  · exact ⟨rfl, rfl⟩
  · split <;> exact ⟨rfl, rfl⟩

omit [Peripheral δ] in
theorem status_deliver : m.deliver.status = m.status := by
  unfold deliver
  split
  · rfl
  · split <;> rfl

theorem cycles_applySpecial (op : SpecialOp) (place : Location) : (m.applySpecial op place).cycles = m.cycles := by
  cases op with
  | int => exact cycles_raise _
  | hwq => simp only [applySpecial]; split <;> rfl
  | hwi =>
    simp only [applySpecial]
    cases h : m.interruptDevice? (m.toCore.load place).toNat with
    | none => rfl
    | some m' =>
      obtain ⟨d, -, rfl⟩ := Option.map_eq_some_iff.mp h
      rfl
  | jsr | iag | ias | rfi | iaq | hwn => rfl

theorem step_of_ok {i : Instruction} (h : Instruction.decode m.toCore.fetch = .ok i) :
    m.step = ({ m with toCore := m.toCore.past }.execute i, .ok i) := by
  simp only [step, h]
  rfl

theorem step_of_error {e : DecodeError} (h : Instruction.decode m.toCore.fetch = .error e) :
    m.step = ({ m with regs.pc := m.regs.pc + UInt16.ofNat m.toCore.fetch.instructionLength }, .error e) := by
  simp only [step, h]
  rfl

theorem executed_of_ok {i : Instruction} (h : Instruction.decode m.toCore.fetch = .ok i) :
    m.executed = ({ m with toCore := m.toCore.past, cycles := m.cycles + 1 } : Machine δ).execute i :=
  congrArg Prod.fst (step_of_ok (m := { m with cycles := m.cycles + 1 }) h)

theorem executed_of_error {e : DecodeError} (h : Instruction.decode m.toCore.fetch = .error e) :
    m.executed =
      { m with regs.pc := m.regs.pc + UInt16.ofNat m.toCore.fetch.instructionLength, cycles := m.cycles + 1 } :=
  congrArg Prod.fst (step_of_error (m := { m with cycles := m.cycles + 1 }) h)

theorem outcome_advance (h : m.sleep = 0) :
    m.advance.2 = match Instruction.decode m.toCore.fetch with
      | .ok i => .ok (some i)
      | .error e => .error (.decode e) := by
  rw [advance, h, if_neg (Nat.lt_irrefl 0)]
  cases hd : Instruction.decode m.toCore.fetch with
  | ok i => rw [step_of_ok hd]
  | error e => rw [step_of_error hd]

theorem cycles_step : m.step.1.cycles = m.cycles := by
  cases h : Instruction.decode m.toCore.fetch with
  | error e => rw [step_of_error h]
  | ok i =>
    rw [step_of_ok h]
    cases i with
    | basic op b a => exact cycles_charge
    | special op a => exact cycles_charge.trans (cycles_applySpecial op _)

/-- A cycle is counted once. -/
theorem cycles_advanced : m.advanced.cycles = m.cycles + 1 := by
  rcases Nat.eq_zero_or_pos m.sleep with hs | hs
  · have executed : m.executed.cycles = m.cycles + 1 := cycles_step
    rw [advanced_of_awake m hs]
    split
    · rw [counters_deliver.1, executed]
    · exact executed
  · rw [advanced_of_sleep m hs]

/-- A cycle that fetches ends in the same way whatever was fetched: with one delivery and one cycle of every device.
Only an instruction that sets the machine on fire, or ends the program, cuts it short. -/
theorem cycle_of_fetches (h : m.Fetches) (runs : m.executed.status = .running) :
    m.cycle.1 = m.executed.deliver.cycleDevices := by
  have advanced : m.advanced = m.executed.deliver := by
    rw [advanced_of_awake m h.2, if_pos (m.executed.isRunning_iff.mpr runs)]
  have advances : m.advanced.isRunning := by
    rw [advanced, isRunning_iff, status_deliver]
    exact runs
  rw [cycle_of_running m h.1, if_pos advances, advanced]

/-- An instruction behind which the machine does not run ends the cycle. -/
theorem cycle_of_executed (h : m.Fetches) (stops : m.executed.status ≠ .running) : m.cycle.1 = m.executed := by
  have stops : ¬ m.executed.isRunning := fun runs => stops (m.executed.isRunning_iff.mp runs)
  have advanced : m.advanced = m.executed := by rw [advanced_of_awake m h.2, if_neg stops]
  rw [cycle_of_running m h.1, advanced, if_neg stops]

theorem sleep_advanced_of_awake (h : m.sleep = 0) : m.advanced.sleep = m.executed.sleep := by
  rw [advanced_of_awake m h]
  split
  · exact counters_deliver.2
  · rfl

end

end Dcpu16.Machine
