import Dcpu16.Machine.Run
import Dcpu16.Proofs.Interrupts.Trace

/-!
# What the machine does to its interrupt queue

The queue events of everything that can be asked of a machine. A cycle has them in three parts: what the
instruction raises, what is delivered, and what the devices raise. Each operation leads from the queue before to
the queue after by a trace of just these events (`queueTrace_cycle`, `queueTrace_run`).
-/

namespace Dcpu16

/-- The value of an operand. -/
def Core.value (s : Core) (o : Operand) : Word :=
  let (place, regs) := s.resolve o
  { s with regs }.load place

namespace Machine

variable {δ : Type}

/-! ## Events of a cycle -/

/-- The message that the instruction at PC raises, if it is INT. -/
def raised? (m : Machine δ) : Option Word :=
  match Instruction.decode m.toCore.fetch with
  | .ok (.special .int a) => some ({ m.toCore with regs := m.regs.advance 1 }.value a)
  | _ => none

/-- The event of executing the instruction at PC. -/
def stepEvents (m : Machine δ) : List QueueEvent := m.raised?.toList.map m.interrupts.pushEvent

/-- The event of a delivery. -/
def deliverEvents (m : Machine δ) : List QueueEvent := m.interrupts.next.1.toList.map .taken

variable [Peripheral δ]

/-- The events of one cycle of each device. -/
def cycleAllEvents : List δ → InterruptQueue → List QueueEvent
  | [], _ => []
  | d :: ds, q =>
    match (Peripheral.cycle d).2 with
    | none => cycleAllEvents ds q
    | some msg =>
      match q.push msg with
      | .ok q => .accepted msg :: cycleAllEvents ds q
      | .error _ => [.refused msg]

/-- The machine of a cycle behind the instruction at PC. -/
def executed (m : Machine δ) : Machine δ := { m with cycles := m.cycles + 1 }.step.1

/-- The machine of a cycle before the cycles of the devices. -/
def advanced (m : Machine δ) : Machine δ := { m with cycles := m.cycles + 1 }.advance.1

/-- What the instruction of a cycle does to the queue. -/
def executionEvents (m : Machine δ) : List QueueEvent :=
  if m.isRunning ∧ m.sleep = 0 then m.stepEvents else []

/-- What the delivery of a cycle does to the queue. -/
def deliveryEvents (m : Machine δ) : List QueueEvent :=
  if m.isRunning ∧ m.sleep = 0 ∧ m.executed.isRunning then m.executed.deliverEvents else []

/-- What the devices do to the queue in a cycle. -/
def deviceEvents (m : Machine δ) : List QueueEvent :=
  if m.isRunning ∧ m.advanced.isRunning then cycleAllEvents m.advanced.devices m.advanced.interrupts else []

/-- The events of a cycle. -/
def cycleEvents (m : Machine δ) : List QueueEvent := m.executionEvents ++ m.deliveryEvents ++ m.deviceEvents

/-- The events of a run of cycles. -/
def runEvents (m : Machine δ) : (n : Nat) → List QueueEvent
  | 0 => []
  | n + 1 =>
    m.cycleEvents ++
      match m.cycle with
      | (_, .error _) => []
      | (m, .ok _) => m.runEvents n

/-! ## Traces of the parts of a cycle -/

section parts
variable (m : Machine δ)

omit [Peripheral δ] in
theorem isRunning_iff : m.isRunning ↔ m.status = .running := by simp [isRunning]

theorem queueState_interruptDevice? {m' : Machine δ} {index : Nat} (h : m.interruptDevice? index = some m') :
    m'.queueState = m.queueState := by
  obtain ⟨d, -, rfl⟩ := Option.map_eq_some_iff.mp h
  rfl

theorem queueState_getD_interruptDevice? (index : Nat) :
    ((m.interruptDevice? index).getD m).queueState = m.queueState := by
  cases h : m.interruptDevice? index with
  | none => rfl
  | some m' => exact queueState_interruptDevice? m h

/-- Only INT raises a message. -/
theorem queueState_special (op : SpecialOp) (a : Operand) (h : op ≠ .int) :
    (m.special op a).queueState = m.queueState := by
  cases op with
  | int => exact absurd rfl h
  | hwq => simp only [special, applySpecial]; split <;> rfl
  | hwi => exact queueState_getD_interruptDevice? { m with regs := (m.toCore.resolve a).2 } _
  | jsr | iag | ias | rfi | iaq | hwn => rfl

omit [Peripheral δ] in
/-- A charge is no event; the program may end with it. -/
theorem queueTrace_charge (h : m.status = .running) (cost : Nat) :
    QueueTrace m.queueState [] (m.charge cost).queueState := by
  rcases Nat.lt_or_ge cost 0x10000 with fits | leaves
  · rw [charge_of_fits fits]
    exact .nil _
  · rw [charge_of_leaves leaves, queueState, h]
    exact .overflow _

theorem queueTrace_step (h : m.status = .running) : QueueTrace m.queueState m.stepEvents m.step.1.queueState := by
  unfold stepEvents raised? step
  split
  · next a ha =>
    -- the machine that raises the message differs from `m` in its registers only
    let s : Core := { m.toCore with regs := m.regs.advance 1 }
    simp only [ha, execute_special]
    exact queueTrace_raise { m with regs := (s.resolve a).2 } (s.value a) h
  · next hint =>
    cases hd : Instruction.decode m.toCore.fetch with
    | error e => simpa only [hd] using .nil _
    | ok i =>
      simp only [hd]
      cases i with
      | basic op b a =>
        let s := ({ m.toCore with regs := m.regs.advance 1 } : Core).basic op b a
        exact queueTrace_charge { m with toCore := s.1 } h _
      | special op a =>
        have keep := queueState_special { m with regs := m.regs.advance 1 } op a fun e => hint a (e ▸ hd)
        rw [execute_special]
        exact keep ▸ .nil _

omit [Peripheral δ] in
theorem queueTrace_deliver (h : m.status = .running) :
    QueueTrace m.queueState m.deliverEvents m.deliver.queueState := by
  have hp := m.interrupts.pending_next.1
  unfold deliverEvents deliver
  split
  · next hn => simpa only [hn] using .nil _
  · next msg q hn =>
    have pop : QueueTrace m.queueState [.taken msg] ⟨q.pending, m.status⟩ := by
      rw [hn] at hp
      rw [queueState, hp, h]
      exact .single .taken
    simp only [hn]
    split <;> exact pop

theorem queueTrace_cycleAll (ds : List δ) (q : InterruptQueue) :
    QueueTrace ⟨q.pending, .running⟩ (cycleAllEvents ds q)
      ⟨(cycleAll ds q).2.1.pending, (cycleAll ds q).2.2⟩ := by
  induction ds generalizing q with
  | nil => exact .nil _
  | cons d ds ih =>
    unfold cycleAllEvents cycleAll
    cases hd : Peripheral.cycle d with
    | mk d' raised =>
      cases raised with
      | none => exact ih q
      | some msg =>
        by_cases room : q.pending.length < InterruptQueue.capacity
        · simp only [InterruptQueue.push, room, if_true]
          exact .cons (.accepted room) (ih { q with pending := q.pending ++ [msg] })
        · simp only [InterruptQueue.push, room, if_false]
          exact .single (.refused (Nat.not_lt.mp room))

/-! ## Traces of cycles and runs -/

theorem advanced_of_sleep (h : 0 < m.sleep) :
    m.advanced = { m with cycles := m.cycles + 1, sleep := m.sleep - 1 } := by
  simp [advanced, advance, h]

theorem advanced_of_awake (h : m.sleep = 0) :
    m.advanced = if m.executed.isRunning then m.executed.deliver else m.executed := by
  simp [advanced, advance, executed, h]

theorem queueTrace_executed (h : m.status = .running) : QueueTrace m.queueState m.stepEvents m.executed.queueState :=
  queueTrace_step { m with cycles := m.cycles + 1 } h

theorem queueTrace_advanced (h : m.status = .running) :
    QueueTrace m.queueState (m.executionEvents ++ m.deliveryEvents) m.advanced.queueState := by
  have hr : m.isRunning := m.isRunning_iff.mpr h
  unfold executionEvents deliveryEvents
  rcases Nat.eq_zero_or_pos m.sleep with hs | hs
  · rw [advanced_of_awake m hs]
    simp only [hr, hs, true_and, if_true]
    refine .append (queueTrace_executed m h) ?_
    split
    · next he => exact queueTrace_deliver _ (isRunning_iff _ |>.mp he)
    · exact .nil _
  · rw [advanced_of_sleep m hs]
    simp only [Nat.ne_of_gt hs, false_and, and_false, if_false]
    exact .nil _

theorem cycle_of_running (h : m.status = .running) :
    m.cycle.1 = if m.advanced.isRunning then m.advanced.cycleDevices else m.advanced := by
  simp only [cycle, h, advanced]

theorem queueTrace_deviceEvents (h : m.status = .running) :
    QueueTrace m.advanced.queueState m.deviceEvents m.cycle.1.queueState := by
  have hr : m.isRunning := m.isRunning_iff.mpr h
  rw [cycle_of_running m h, deviceEvents]
  by_cases ha : m.advanced.isRunning
  · rw [if_pos ha, if_pos ⟨hr, ha⟩]
    have devices := queueTrace_cycleAll m.advanced.devices m.advanced.interrupts
    rwa [← (isRunning_iff _).mp ha] at devices
  · rw [if_neg ha, if_neg fun both => ha both.2]
    exact .nil _

theorem cycle_of_onFire {msg : Word} (h : m.status = .onFire msg) : m.cycle = (m, .error (.onFire msg)) := by
  simp only [cycle, h]

/-- A machine that does not run returns a fault and changes no more. -/
theorem cycle_eq_of_stopped (h : m.status ≠ .running) : ∃ e, m.cycle = (m, .error e) := by
  cases status : m.status with
  | running => exact absurd status h
  | onFire msg => exact ⟨_, cycle_of_onFire m status⟩
  | overflowed => exact ⟨.overflow, by simp only [cycle, status]⟩

theorem cycle_of_stopped (h : m.status ≠ .running) : m.cycle.1 = m := by
  obtain ⟨_, stops⟩ := cycle_eq_of_stopped m h
  rw [stops]

theorem events_of_stopped (h : m.status ≠ .running) :
    m.executionEvents = [] ∧ m.deliveryEvents = [] ∧ m.deviceEvents = [] := by
  simp [executionEvents, deliveryEvents, deviceEvents, isRunning, h]

/-- The events of a cycle lead from the queue before it to the queue behind it. -/
theorem queueTrace_cycle : QueueTrace m.queueState m.cycleEvents m.cycle.1.queueState := by
  by_cases h : m.status = .running
  · exact .append (queueTrace_advanced m h) (queueTrace_deviceEvents m h)
  · obtain ⟨he, hd, hv⟩ := events_of_stopped m h
    simp only [cycleEvents, he, hd, hv, cycle_of_stopped m h]
    exact .nil _

theorem queueTrace_run (n : Nat) : QueueTrace m.queueState (m.runEvents n) (m.run n).1.queueState := by
  induction n generalizing m with
  | zero => exact .nil _
  | succ n ih =>
    unfold runEvents run
    refine .append (queueTrace_cycle m) ?_
    split
    · next hc => simpa only [hc] using .nil _
    · next m' _ hc => simpa only [hc] using ih m'

end parts

end Machine

end Dcpu16
