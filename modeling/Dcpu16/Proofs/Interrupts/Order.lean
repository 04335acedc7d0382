import Dcpu16.Proofs.Calls

/-!
# The order of interrupt messages

Messages leave the queue in the order in which they came, and none is lost or invented
(`messages_conserved_in_order`). Within a cycle the instruction raises first, then at most one message is taken,
and the devices raise last (`CycleOrder`); so a message that a device raises waits at least until the next cycle.
-/

namespace Dcpu16.Machine

open QueueEvent

variable {δ : Type} [Peripheral δ]

/-- **What a cycle does to the queue**, and when. -/
structure CycleOrder (m : Machine δ) : Prop where
  /-- The instruction raises at most the message of an INT, if there is room for it. -/
  instruction : acceptedIn m.executionEvents =
    if m.isRunning ∧ m.sleep = 0 ∧ m.interrupts.pending.length < InterruptQueue.capacity then m.raised?.toList else []
  /-- The devices raise in the order of attachment, as long as there is room. -/
  devices : acceptedIn m.deviceEvents =
    if m.isRunning ∧ m.advanced.isRunning then
      (m.advanced.devices.filterMap fun d => (Peripheral.cycle d).2).take
        (InterruptQueue.capacity - m.advanced.interrupts.pending.length)
    else []
  /-- Nothing else raises. -/
  accepted : acceptedIn m.cycleEvents = acceptedIn m.executionEvents ++ acceptedIn m.deviceEvents
  /-- At most one message is taken. -/
  taken_le_one : (takenIn m.cycleEvents).length ≤ 1
  /-- It is taken only behind an instruction that leaves queueing off. -/
  taken_awake : takenIn m.cycleEvents ≠ [] → m.sleep = 0 ∧ m.executed.interrupts.queueing = false
  /-- It is one that waited before the devices raised. -/
  taken_before : ∃ rest, m.interrupts.pending ++ acceptedIn m.executionEvents = takenIn m.cycleEvents ++ rest ∧
    m.cycle.1.interrupts.pending = rest ++ acceptedIn m.deviceEvents

/-! ## The three parts of a cycle -/

section parts
variable (m : Machine δ)

theorem acceptedIn_pushEvent (q : InterruptQueue) (msg : Word) :
    acceptedIn [q.pushEvent msg] = if q.pending.length < InterruptQueue.capacity then [msg] else [] := by
  by_cases room : q.pending.length < InterruptQueue.capacity <;>
    simp [InterruptQueue.pushEvent, InterruptQueue.push, room]

theorem takenIn_pushEvent (q : InterruptQueue) (msg : Word) : takenIn [q.pushEvent msg] = [] := by
  by_cases room : q.pending.length < InterruptQueue.capacity <;>
    simp [InterruptQueue.pushEvent, InterruptQueue.push, room]

omit [Peripheral δ] in
theorem acceptedIn_executionEvents : acceptedIn m.executionEvents =
    if m.isRunning ∧ m.sleep = 0 ∧ m.interrupts.pending.length < InterruptQueue.capacity then m.raised?.toList
    else [] := by
  unfold executionEvents stepEvents
  by_cases hs : m.isRunning ∧ m.sleep = 0
  · simp only [hs, and_self, if_true, true_and]
    cases m.raised? with
    | none => simp
    | some msg => exact acceptedIn_pushEvent m.interrupts msg
  · rw [if_neg hs, if_neg fun all => hs ⟨all.1, all.2.1⟩]
    rfl

omit [Peripheral δ] in
theorem takenIn_executionEvents : takenIn m.executionEvents = [] := by
  unfold executionEvents stepEvents
  split
  · cases m.raised? with
    | none => rfl
    | some msg => exact takenIn_pushEvent m.interrupts msg
  · rfl

omit [Peripheral δ] in
theorem takenIn_deliverEvents : takenIn m.deliverEvents = m.interrupts.next.1.toList := by
  unfold deliverEvents
  cases m.interrupts.next.1 <;> rfl

omit [Peripheral δ] in
theorem acceptedIn_deliverEvents : acceptedIn m.deliverEvents = [] := by
  unfold deliverEvents
  cases m.interrupts.next.1 <;> rfl

theorem acceptedIn_deliveryEvents : acceptedIn m.deliveryEvents = [] := by
  unfold deliveryEvents
  split
  · exact acceptedIn_deliverEvents _
  · rfl

theorem length_takenIn_deliveryEvents : (takenIn m.deliveryEvents).length ≤ 1 := by
  unfold deliveryEvents
  split
  · rw [takenIn_deliverEvents]
    exact Option.length_toList_le
  · exact Nat.zero_le 1

theorem takenIn_deliveryEvents_ne_nil (h : takenIn m.deliveryEvents ≠ []) :
    m.sleep = 0 ∧ m.executed.interrupts.queueing = false := by
  unfold deliveryEvents at h
  split at h
  · next awake =>
    rw [takenIn_deliverEvents] at h
    refine ⟨awake.2.1, ?_⟩
    cases hq : m.executed.interrupts.queueing with
    | false => rfl
    | true => exact absurd (by simp [InterruptQueue.next, hq]) h
  · exact absurd rfl h

theorem acceptedIn_cycleAllEvents (ds : List δ) (q : InterruptQueue) :
    acceptedIn (cycleAllEvents ds q) =
      (ds.filterMap fun d => (Peripheral.cycle d).2).take (InterruptQueue.capacity - q.pending.length) := by
  induction ds generalizing q with
  | nil => simp [cycleAllEvents]
  | cons d ds ih =>
    unfold cycleAllEvents
    cases hd : (Peripheral.cycle d).2 with
    | none => simpa [hd] using ih q
    | some msg =>
      by_cases room : q.pending.length < InterruptQueue.capacity
      · have left : InterruptQueue.capacity - q.pending.length =
            InterruptQueue.capacity - (q.pending ++ [msg]).length + 1 := by simp; omega
        simp only [InterruptQueue.push, room, if_true, acceptedIn_accepted, List.filterMap_cons, hd, left,
          List.take_succ_cons]
        rw [ih]
      · have left : InterruptQueue.capacity - q.pending.length = 0 := by omega
        simp [InterruptQueue.push, room, left]

theorem takenIn_cycleAllEvents (ds : List δ) (q : InterruptQueue) : takenIn (cycleAllEvents ds q) = [] := by
  induction ds generalizing q with
  | nil => rfl
  | cons d ds ih =>
    unfold cycleAllEvents
    split
    · exact ih q
    · split
      · exact ih _
      · rfl

theorem acceptedIn_deviceEvents : acceptedIn m.deviceEvents =
    if m.isRunning ∧ m.advanced.isRunning then
      (m.advanced.devices.filterMap fun d => (Peripheral.cycle d).2).take
        (InterruptQueue.capacity - m.advanced.interrupts.pending.length)
    else [] := by
  unfold deviceEvents
  split
  · exact acceptedIn_cycleAllEvents _ _
  · rfl

theorem takenIn_deviceEvents : takenIn m.deviceEvents = [] := by
  unfold deviceEvents
  split
  · exact takenIn_cycleAllEvents _ _
  · rfl

theorem takenIn_cycleEvents : takenIn m.cycleEvents = takenIn m.deliveryEvents := by
  simp [cycleEvents, takenIn_executionEvents, takenIn_deviceEvents]

theorem taken_before_devices : ∃ rest,
    m.interrupts.pending ++ acceptedIn m.executionEvents = takenIn m.cycleEvents ++ rest ∧
      m.cycle.1.interrupts.pending = rest ++ acceptedIn m.deviceEvents := by
  by_cases h : m.status = .running
  · have before := (queueTrace_advanced m h).conserved
    have behind := (queueTrace_deviceEvents m h).conserved
    simp only [acceptedIn_append, takenIn_append, acceptedIn_deliveryEvents, takenIn_executionEvents,
      List.append_nil, List.nil_append] at before
    simp only [takenIn_deviceEvents, List.nil_append] at behind
    exact ⟨m.advanced.interrupts.pending, takenIn_cycleEvents m ▸ before, behind.symm⟩
  · obtain ⟨he, hd, hv⟩ := events_of_stopped m h
    exact ⟨m.interrupts.pending, by simp [cycleEvents, he, hd, hv], by simp [hv, cycle_of_stopped m h]⟩

end parts

/-! ## Order -/

theorem cycleOrder (m : Machine δ) : CycleOrder m where
  instruction := acceptedIn_executionEvents m
  devices := acceptedIn_deviceEvents m
  accepted := by simp [cycleEvents, acceptedIn_deliveryEvents]
  taken_le_one := takenIn_cycleEvents m ▸ length_takenIn_deliveryEvents m
  taken_awake := takenIn_cycleEvents m ▸ takenIn_deliveryEvents_ne_nil m
  taken_before := taken_before_devices m

/-- **No message is lost, duplicated or reordered.** Over any calls, what waited before and was accepted since is
what was taken and what waits now, in this order; and each cycle on the way has its events in order. -/
theorem messages_conserved_in_order (m : Machine δ) (calls : List Call) :
    m.interrupts.pending ++ acceptedIn (m.history calls) =
        takenIn (m.history calls) ++ (m.performAll calls).interrupts.pending ∧
      CycleOrder (m.performAll calls) :=
  ⟨(queueTrace_history m calls).conserved, cycleOrder _⟩

end Dcpu16.Machine
