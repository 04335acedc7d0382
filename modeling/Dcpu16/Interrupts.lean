import Dcpu16.Word

/-!
# Interrupts

Interrupt messages wait in a first-in first-out queue of bounded size. While queueing is on they
stay there; otherwise the machine takes at most one after each instruction.
-/

namespace Dcpu16

/-- The waiting messages in the order of their arrival, and whether they are held back. -/
structure InterruptQueue where
  pending : List Word := []
  queueing : Bool := false
  deriving DecidableEq, Repr, Inhabited

namespace InterruptQueue

/-- How many messages may wait. -/
def capacity : Nat := 256

/-- A message that found the queue full. -/
structure Overflow where
  refused : Word
  deriving DecidableEq, Repr

/-- How a refused message is reported. -/
def Overflow.message (e : Overflow) : String :=
  "interrupt queue overflow while queueing message " ++ String.ofList e.refused.numeral

/-- Appends a message, unless the queue is full. -/
def push (q : InterruptQueue) (m : Word) : Except Overflow InterruptQueue :=
  if q.pending.length < capacity then .ok { q with pending := q.pending ++ [m] } else .error ⟨m⟩

/-- Takes the message that has waited longest, unless messages are held back. -/
def next (q : InterruptQueue) : Option Word × InterruptQueue :=
  match q.queueing, q.pending with
  | false, m :: rest => (some m, { q with pending := rest })
  | _, _ => (none, q)

theorem pending_push {q r : InterruptQueue} {m : Word} (h : q.push m = .ok r) :
    r.pending = q.pending ++ [m] ∧ r.queueing = q.queueing := by
  unfold push at h
  split at h <;> cases h
  exact ⟨rfl, rfl⟩

theorem pending_next (q : InterruptQueue) :
    q.pending = q.next.1.toList ++ q.next.2.pending ∧ q.next.2.queueing = q.queueing := by
  unfold next; split <;> simp_all

end InterruptQueue

end Dcpu16
