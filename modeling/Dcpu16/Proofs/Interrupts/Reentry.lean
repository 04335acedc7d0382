import Dcpu16.Proofs.Interrupts.Return

/-!
# Handlers are not entered again

When a handler is entered queueing is turned on, and two instructions turn it off: RFI, and IAQ with the value zero.
Nothing else does, neither another instruction nor a reserved word, a device or a request from outside. So until one of
the two is executed no message leaves the queue, and no handler is entered (`handlers_not_reentered`).
-/

namespace Dcpu16.Machine

open QueueEvent

variable {δ : Type}

/-- In its next cycle the machine executes an RFI, or an IAQ with the value zero. -/
def releasing (m : Machine δ) : Bool :=
  m.Fetches && match Instruction.decode m.toCore.fetch with
    | .ok (.special .rfi _) => true
    | .ok (.special .iaq o) => m.toCore.past.value o = 0
    | _ => false

variable [Peripheral δ]

/-- In the course of calls the machine executes an RFI, or an IAQ with the value zero. -/
def Releases (m : Machine δ) (calls : List Call) : Prop :=
  ∃ before behind, calls = before ++ .cycle :: behind ∧ (m.performAll before).releasing

section
variable {m : Machine δ} {calls : List Call}

theorem releases_of_cons {call : Call} (h : (m.perform call).Releases calls) : m.Releases (call :: calls) := by
  obtain ⟨before, behind, rfl, released⟩ := h
  exact ⟨call :: before, behind, rfl, released⟩

theorem releases_append (h : m.Releases calls) (more : List Call) : m.Releases (calls ++ more) := by
  obtain ⟨before, behind, rfl, released⟩ := h
  exact ⟨before, behind ++ more, by rw [List.append_assoc, List.cons_append], released⟩

/-! ## What keeps queueing on -/

omit [Peripheral δ] in
theorem queueing_raise (msg : Word) : (m.raise msg).interrupts.queueing = m.interrupts.queueing := by
  unfold raise
  split
  · next accepted => exact (InterruptQueue.pending_push accepted).2
  · rfl

theorem interrupts_interruptDevice? {m' : Machine δ} {index : Nat} (h : m.interruptDevice? index = some m') :
    m'.interrupts = m.interrupts := by
  obtain ⟨d, -, rfl⟩ := Option.map_eq_some_iff.mp h
  rfl

theorem queueing_getD_interruptDevice? (index : Nat) :
    ((m.interruptDevice? index).getD m).interrupts.queueing = m.interrupts.queueing := by
  cases h : m.interruptDevice? index with
  | none => rfl
  | some m' => exact congrArg InterruptQueue.queueing (interrupts_interruptDevice? h)

theorem queueing_special {op : SpecialOp} (rfi : op ≠ .rfi) (iaq : op ≠ .iaq) (o : Operand) :
    (m.special op o).interrupts.queueing = m.interrupts.queueing := by
  cases op with
  | rfi => exact absurd rfl rfi
  | iaq => exact absurd rfl iaq
  | int => exact queueing_raise _
  | hwq => simp only [special, applySpecial]; split <;> rfl
  | hwi => exact queueing_getD_interruptDevice? (m := { m with regs := (m.toCore.resolve o).2 }) _
  | jsr | iag | ias | hwn => rfl

theorem queueing_executed (on : m.interrupts.queueing) (fetches : m.Fetches) (h : m.releasing = false) :
    m.executed.interrupts.queueing := by
  simp only [releasing, fetches, decide_true, Bool.true_and] at h
  cases decoded : Instruction.decode m.toCore.fetch with
  | error e => rw [executed_of_error decoded]; exact on
  | ok i =>
    rw [executed_of_ok decoded]
    rw [decoded] at h
    cases i with
    | basic op b a => exact (congrArg InterruptQueue.queueing interrupts_charge).trans on
    | special op o =>
      rw [execute_special]
      by_cases rfi : op = .rfi
      · subst rfi; cases h
      by_cases iaq : op = .iaq
      · subst iaq
        exact decide_eq_true (of_decide_eq_false h)
      · exact (queueing_special rfi iaq o).trans on

omit [Peripheral δ] in
theorem deliver_of_queueing (on : m.interrupts.queueing) : m.deliver = m := by
  have held : m.interrupts.next = (none, m.interrupts) := by rw [InterruptQueue.next, on]
  rw [deliver, held]

theorem queueing_advanced (on : m.interrupts.queueing) (running : m.status = .running) (h : m.releasing = false) :
    m.advanced.interrupts.queueing := by
  rcases Nat.eq_zero_or_pos m.sleep with awake | asleep
  · have executed := queueing_executed on ⟨running, awake⟩ h
    rw [advanced_of_awake m awake]
    split
    · rwa [deliver_of_queueing executed]
    · exact executed
  · rw [advanced_of_sleep m asleep]
    exact on

/-! ## While queueing is on -/

theorem held_cycle (on : m.interrupts.queueing) (h : m.releasing = false) :
    m.cycle.1.interrupts.queueing ∧ takenIn m.cycleEvents = [] := by
  by_cases hm : m.status = .running
  · refine ⟨(queueing_cycle hm).trans (queueing_advanced on hm h), ?_⟩
    apply Classical.byContradiction
    intro taken
    rw [takenIn_cycleEvents] at taken
    obtain ⟨awake, off⟩ := takenIn_deliveryEvents_ne_nil m taken
    cases off.symm.trans (queueing_executed on ⟨hm, awake⟩ h)
  · rw [cycle_of_stopped m hm, takenIn_cycleEvents, (events_of_stopped m hm).2.1]
    exact ⟨on, rfl⟩

theorem held_perform {call : Call} (on : m.interrupts.queueing) (h : call = .cycle → m.releasing = false) :
    (m.perform call).interrupts.queueing ∧ takenIn (m.callEvents call) = [] := by
  cases call with
  | cycle => exact held_cycle on (h rfl)
  | interrupt msg =>
    cases running : m.status with
    | running =>
      simp only [perform, callEvents, interrupt, checkRunning, isRunning, running]
      exact ⟨(queueing_raise msg).trans on, takenIn_pushEvent _ _⟩
    | onFire _ | overflowed =>
      simp only [perform, callEvents, interrupt, checkRunning, isRunning, running]
      exact ⟨on, rfl⟩
  | interruptDevice index =>
    refine ⟨?_, rfl⟩
    simp only [perform, interruptDevice]
    split
    · exact on
    · split
      · next asked => rw [interrupts_interruptDevice? asked]; exact on
      · exact on
  | flash image =>
    refine ⟨?_, rfl⟩
    simp only [perform, flash]
    cases Memory.ofImage image <;> exact on

/-- Until queueing is turned off no message leaves the queue. -/
theorem held_performAll (on : m.interrupts.queueing) (h : ¬ m.Releases calls) :
    (m.performAll calls).interrupts.queueing ∧ takenIn (m.history calls) = [] := by
  induction calls generalizing m with
  | nil => exact ⟨on, rfl⟩
  | cons call calls ih =>
    have quiet : call = .cycle → m.releasing = false := by
      rintro rfl
      exact Bool.eq_false_iff.mpr fun now => h ⟨[], calls, rfl, now⟩
    obtain ⟨still, here⟩ := held_perform on quiet
    obtain ⟨last, later⟩ := ih still fun rest => h (releases_of_cons rest)
    refine ⟨last, ?_⟩
    rw [history, takenIn_append, here, later, List.append_nil]

end

/-- **Handlers are not entered again behind the back of the program.** From where a handler is entered until an RFI or
an IAQ with the value zero is executed, queueing stays on and no message leaves the queue, whatever is executed and
requested. So there is such an instruction between any two entries. -/
theorem handlers_not_reentered {m : Machine δ} {msg : Word} (h : m.delivered? = some msg) (calls : List Call) :
    (¬ m.cycle.1.Releases calls →
        (m.cycle.1.performAll calls).interrupts.queueing ∧ takenIn (m.cycle.1.history calls) = []) ∧
      ∀ next, (m.cycle.1.performAll calls).delivered? = some next → m.cycle.1.Releases (calls ++ [.cycle]) := by
  have on : m.cycle.1.interrupts.queueing := (entered_cycle h).queueing
  refine ⟨held_performAll on, ?_⟩
  intro next delivers
  apply Classical.byContradiction
  intro quiet
  obtain ⟨still, -⟩ := held_performAll on fun earlier => quiet (releases_append earlier [.cycle])
  -- the instruction of the second delivery's cycle would have to turn queueing off
  have silent : (m.cycle.1.performAll calls).releasing = false :=
    Bool.eq_false_iff.mpr fun last => quiet ⟨calls, [], rfl, last⟩
  unfold delivered? at delivers
  split at delivers
  · next entering =>
    have held := queueing_executed still entering.1 silent
    rw [InterruptQueue.next, held] at delivers
    cases delivers
  · cases delivers

/-- The second of two messages that wait is delivered in the cycle of the RFI that ends the handler of the first. -/
theorem handlers_not_reentered_of_ringing :
    ringing.delivered? = some 5 ∧ ringing.cycle.1.delivered? = some 9 ∧ ringing.cycle.1.Releases [.cycle] := by
  have first : ringing.delivered? = some 5 := by decide +kernel
  have second : ringing.cycle.1.delivered? = some 9 := by decide +kernel
  exact ⟨first, second, (handlers_not_reentered first []).2 9 second⟩

end Dcpu16.Machine
