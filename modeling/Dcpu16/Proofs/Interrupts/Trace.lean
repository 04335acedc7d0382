import Dcpu16.Machine

/-!
# Traces of the interrupt queue

What can happen to a message at the queue, and what a sequence of such events makes of the waiting messages
and of the status. `QueueTrace` fixes the rules: a message is accepted while there is room, the first one that
is refused sets the machine on fire, and only the message that has waited longest is taken. Nothing happens
after a fire, nor after an overflow. Two facts hold of every trace:

* `QueueTrace.conserved` — what waited and was accepted is what was taken and waits, in this order;
* `QueueTrace.refused_eq` — a trace that ends on fire has refused one message, and the queue is full.
-/

namespace Dcpu16

/-- What happens to a message at the queue. -/
inductive QueueEvent
  | accepted (msg : Word)
  | refused (msg : Word)
  | taken (msg : Word)
  deriving DecidableEq, Repr

/-- What becomes of a message that is pushed. -/
def InterruptQueue.pushEvent (q : InterruptQueue) (msg : Word) : QueueEvent :=
  match q.push msg with
  | .ok _ => .accepted msg
  | .error _ => .refused msg

namespace QueueEvent

/-- The messages that were accepted, in order. -/
def acceptedIn (es : List QueueEvent) : List Word := es.filterMap fun | accepted msg => some msg | _ => none

/-- The messages that were refused, in order. -/
def refusedIn (es : List QueueEvent) : List Word := es.filterMap fun | refused msg => some msg | _ => none

/-- The messages that were taken, in order. -/
def takenIn (es : List QueueEvent) : List Word := es.filterMap fun | taken msg => some msg | _ => none

section lists
variable (es fs : List QueueEvent) (msg : Word)

@[simp] theorem acceptedIn_nil : acceptedIn [] = [] := rfl
@[simp] theorem acceptedIn_accepted : acceptedIn (accepted msg :: es) = msg :: acceptedIn es := rfl
@[simp] theorem acceptedIn_refused : acceptedIn (refused msg :: es) = acceptedIn es := rfl
@[simp] theorem acceptedIn_taken : acceptedIn (taken msg :: es) = acceptedIn es := rfl
@[simp] theorem refusedIn_nil : refusedIn [] = [] := rfl
@[simp] theorem refusedIn_accepted : refusedIn (accepted msg :: es) = refusedIn es := rfl
@[simp] theorem refusedIn_refused : refusedIn (refused msg :: es) = msg :: refusedIn es := rfl
@[simp] theorem refusedIn_taken : refusedIn (taken msg :: es) = refusedIn es := rfl
@[simp] theorem takenIn_nil : takenIn [] = [] := rfl
@[simp] theorem takenIn_accepted : takenIn (accepted msg :: es) = takenIn es := rfl
@[simp] theorem takenIn_refused : takenIn (refused msg :: es) = takenIn es := rfl
@[simp] theorem takenIn_taken : takenIn (taken msg :: es) = msg :: takenIn es := rfl

@[simp] theorem acceptedIn_append : acceptedIn (es ++ fs) = acceptedIn es ++ acceptedIn fs :=
  List.filterMap_append
@[simp] theorem takenIn_append : takenIn (es ++ fs) = takenIn es ++ takenIn fs := List.filterMap_append

end lists

end QueueEvent

open QueueEvent

/-- The waiting messages and the status: all that an event depends on. -/
structure QueueState where
  pending : List Word
  status : Status

/-- One event. -/
inductive QueueStep : QueueState → QueueEvent → QueueState → Prop
  | accepted {p : List Word} {msg : Word} (room : p.length < InterruptQueue.capacity) :
      QueueStep ⟨p, .running⟩ (.accepted msg) ⟨p ++ [msg], .running⟩
  | refused {p : List Word} {msg : Word} (full : InterruptQueue.capacity ≤ p.length) :
      QueueStep ⟨p, .running⟩ (.refused msg) ⟨p, .onFire msg⟩
  | taken {p : List Word} {msg : Word} : QueueStep ⟨msg :: p, .running⟩ (.taken msg) ⟨p, .running⟩

/-- A sequence of events. An overflow ends it without one. -/
inductive QueueTrace : QueueState → List QueueEvent → QueueState → Prop
  | nil (s : QueueState) : QueueTrace s [] s
  | overflow (p : List Word) : QueueTrace ⟨p, .running⟩ [] ⟨p, .overflowed⟩
  | cons {s t u : QueueState} {e : QueueEvent} {es : List QueueEvent} :
      QueueStep s e t → QueueTrace t es u → QueueTrace s (e :: es) u

namespace QueueTrace

variable {s t u : QueueState} {es fs : List QueueEvent}

theorem single {e : QueueEvent} (h : QueueStep s e t) : QueueTrace s [e] t := .cons h (.nil t)

/-- Nothing happens to a machine that does not run. -/
theorem of_stopped (h : QueueTrace s es t) (hs : s.status ≠ .running) : es = [] ∧ t = s := by
  cases h with
  | nil => exact ⟨rfl, rfl⟩
  | overflow => exact absurd rfl hs
  | cons e _ => cases e <;> exact absurd rfl hs

theorem append (h : QueueTrace s es t) (k : QueueTrace t fs u) : QueueTrace s (es ++ fs) u := by
  induction h with
  | nil => exact k
  | overflow p =>
    obtain ⟨rfl, rfl⟩ := k.of_stopped nofun
    exact .overflow p
  | cons e _ ih => exact .cons e (ih k)

/-- **Conservation.** No message is lost, duplicated or moved past another. -/
theorem conserved (h : QueueTrace s es t) : s.pending ++ acceptedIn es = takenIn es ++ t.pending := by
  induction h with
  | nil | overflow => simp
  | cons e _ ih => cases e <;> simpa using ih

/-- The queue never grows past its capacity. -/
theorem length_le (h : QueueTrace s es t) (hs : s.pending.length ≤ InterruptQueue.capacity) :
    t.pending.length ≤ InterruptQueue.capacity := by
  induction h with
  | nil | overflow => exact hs
  | cons e _ ih =>
    refine ih ?_
    cases e with
    | accepted room => rw [List.length_append]; exact room
    | refused _ => exact hs
    | taken => exact Nat.le_of_succ_le hs

/-- Without a fire nothing was refused; on fire it is the one refused message that the status names, and the queue is
full. -/
theorem refused_eq (h : QueueTrace s es t) (hs : s.status = .running) :
    (∀ msg, t.status ≠ .onFire msg) ∧ refusedIn es = [] ∨
      ∃ msg, t.status = .onFire msg ∧ refusedIn es = [msg] ∧ InterruptQueue.capacity ≤ t.pending.length := by
  induction h with
  | nil => exact .inl ⟨by simp [hs], rfl⟩
  | overflow => exact .inl ⟨nofun, rfl⟩
  | cons e rest ih =>
    cases e with
    | accepted _ | taken => simpa using ih rfl
    | refused full =>
      obtain ⟨rfl, rfl⟩ := of_stopped rest nofun
      exact .inr ⟨_, rfl, rfl, full⟩

end QueueTrace

/-! ## Pushing -/

namespace Machine

variable {δ : Type}

/-- What queue events depend on and change. -/
def queueState (m : Machine δ) : QueueState := ⟨m.interrupts.pending, m.status⟩

/-- A push while the machine runs is an event, and sets the machine on fire if it is refused. -/
theorem queueTrace_raise (m : Machine δ) (msg : Word) (h : m.status = .running) :
    QueueTrace m.queueState [m.interrupts.pushEvent msg] (m.raise msg).queueState := by
  refine .single ?_
  by_cases room : m.interrupts.pending.length < InterruptQueue.capacity
  · simp only [queueState, InterruptQueue.pushEvent, raise, InterruptQueue.push, room, if_true, h]
    exact .accepted room
  · simp only [queueState, InterruptQueue.pushEvent, raise, InterruptQueue.push, room, if_false, h]
    exact .refused (Nat.not_lt.mp room)

end Machine

end Dcpu16
