import Dcpu16.Proofs.Interrupts.Events

/-!
# Sequences of calls

What can be asked of a machine from outside, and the queue events of a sequence of calls. A `Call` is made of a
machine at work; an `Action` may also attach a device, run many cycles or reset the machine. A `Record` keeps
the events since the last reset.
-/

namespace Dcpu16

/-- A call made of a machine at work. -/
inductive Call
  | cycle
  | interrupt (msg : Word)
  | interruptDevice (index : Nat)
  | flash (image : List Word)
  deriving Repr

/-- Anything that can be asked of a machine. -/
inductive Action (δ : Type)
  | call (c : Call)
  | attach (d : δ)
  | run (n : Nat)
  | reset

namespace Machine

variable {δ : Type} [Peripheral δ]

/-! ## Calls -/

/-- The machine behind a call. -/
def perform (m : Machine δ) : Call → Machine δ
  | .cycle => m.cycle.1
  | .interrupt msg => (m.interrupt msg).1
  | .interruptDevice index => (m.interruptDevice index).1
  | .flash image =>
    match m.flash image with
    | .ok m => m
    | .error _ => m

/-- The queue events of a call. -/
def callEvents (m : Machine δ) : Call → List QueueEvent
  | .cycle => m.cycleEvents
  | .interrupt msg => if m.isRunning then [m.interrupts.pushEvent msg] else []
  | .interruptDevice _ | .flash _ => []

/-- The machine behind calls. -/
def performAll (m : Machine δ) (calls : List Call) : Machine δ := calls.foldl perform m

/-- The queue events of calls. -/
def history (m : Machine δ) : List Call → List QueueEvent
  | [] => []
  | c :: calls => m.callEvents c ++ (m.perform c).history calls

theorem queueTrace_perform (m : Machine δ) (c : Call) :
    QueueTrace m.queueState (m.callEvents c) (m.perform c).queueState := by
  cases c with
  | cycle => exact queueTrace_cycle m
  | interrupt msg =>
    cases h : m.status with
    | running =>
      simp only [callEvents, perform, isRunning, interrupt, checkRunning, h]
      exact queueTrace_raise m msg h
    | onFire _ | overflowed =>
      simp only [callEvents, perform, isRunning, interrupt, checkRunning, h]
      exact .nil _
  | interruptDevice index =>
    have keep : (m.interruptDevice index).1.queueState = m.queueState := by
      unfold interruptDevice
      split
      · rfl
      · split
        · next hm => exact queueState_interruptDevice? m hm
        · rfl
    exact keep ▸ .nil _
  | flash image =>
    have keep : (m.perform (.flash image)).queueState = m.queueState := by
      simp only [perform, flash]
      cases Memory.ofImage image <;> rfl
    exact keep ▸ .nil _

theorem queueTrace_history (m : Machine δ) (calls : List Call) :
    QueueTrace m.queueState (m.history calls) (m.performAll calls).queueState := by
  induction calls generalizing m with
  | nil => exact .nil _
  | cons c calls ih => exact .append (queueTrace_perform m c) (ih (m.perform c))

end Machine

/-! ## Actions -/

/-- A machine, and its queue events since the last reset. -/
structure Record (δ : Type) where
  machine : Machine δ := {}
  events : List QueueEvent := []

namespace Record

variable {δ : Type} [Peripheral δ]

/-- Lets an action happen. -/
def act (r : Record δ) : Action δ → Record δ
  | .call c => ⟨r.machine.perform c, r.events ++ r.machine.callEvents c⟩
  | .attach d => ⟨r.machine.attach d, r.events⟩
  | .run n => ⟨(r.machine.runCounted n).1, r.events ++ r.machine.runEvents n⟩
  | .reset => ⟨r.machine.reset, []⟩

/-- Lets actions happen, one after the other. -/
def actAll (r : Record δ) (actions : List (Action δ)) : Record δ := actions.foldl act r

/-- The events lead from an empty queue to the queue of the machine. -/
def Faithful (r : Record δ) : Prop := QueueTrace ⟨[], .running⟩ r.events r.machine.queueState

theorem Faithful.act {r : Record δ} (h : r.Faithful) (a : Action δ) : (r.act a).Faithful := by
  cases a with
  | call c => exact h.append (r.machine.queueTrace_perform c)
  | attach d => exact h
  | run n => exact h.append (r.machine.queueTrace_run n)
  | reset => exact .nil _

/-- **Every record is faithful**, whatever happens to a new machine. -/
theorem faithful_actAll (actions : List (Action δ)) : (actAll ({} : Record δ) actions).Faithful := by
  have keep (r : Record δ) (h : r.Faithful) : (actAll r actions).Faithful := by
    induction actions generalizing r with
    | nil => exact h
    | cons a actions ih => exact ih (r.act a) (h.act a)
  exact keep {} (.nil _)

end Record

end Dcpu16
