import Dcpu16.Proofs.Calls

/-!
# Fire

A machine is on fire exactly when its queue refused a message since the last reset. The queue is full then and
keeps the messages that it has, and nothing that can be asked of the machine changes anything until a reset
(`fire_exact_and_final`).
-/

namespace Dcpu16.Machine

open QueueEvent

variable {δ : Type} [Peripheral δ]

/-- **What it means to be on fire**: every call fails, names the message, and leaves the machine as it is. -/
structure Burning (m : Machine δ) (msg : Word) : Prop where
  status : m.status = .onFire msg
  cycle : m.cycle = (m, .error (.onFire msg))
  run : ∀ n, 0 < n → m.runCounted n = (m, .error (.onFire msg))
  interrupt : ∀ other, m.interrupt other = (m, .error (.onFire msg))
  interruptDevice : ∀ index, m.interruptDevice index = (m, .error (.onFire msg))

section burning
variable {m : Machine δ} {msg : Word} (h : m.status = .onFire msg)
include h

theorem run_of_onFire {n : Nat} (hn : 0 < n) : m.run n = (m, .error (.onFire msg)) := by
  obtain ⟨k, rfl⟩ := Nat.exists_eq_succ_of_ne_zero (Nat.ne_of_gt hn)
  simp only [Machine.run, cycle_of_onFire m h]

theorem burning_of_onFire : Burning m msg where
  status := h
  cycle := cycle_of_onFire m h
  run n hn := by simp only [runCounted, run_of_onFire h hn, Except.map]
  interrupt other := by simp only [Machine.interrupt, checkRunning, h]
  interruptDevice index := by simp only [Machine.interruptDevice, checkRunning, h]

/-- Only a reset puts a fire out. -/
theorem status_act_of_onFire (events : List QueueEvent) {a : Action δ} (ha : a ≠ .reset) :
    (Record.act ⟨m, events⟩ a).machine.status = .onFire msg := by
  have burns := burning_of_onFire h
  cases a with
  | attach d => exact h
  | reset => exact absurd rfl ha
  | run n =>
    rcases Nat.eq_zero_or_pos n with rfl | hn
    · exact h
    · simpa only [Record.act, burns.run n hn] using h
  | call c =>
    cases c with
    | cycle => simpa only [Record.act, perform, burns.cycle] using h
    | interrupt other => simpa only [Record.act, perform, burns.interrupt other] using h
    | interruptDevice index => simpa only [Record.act, perform, burns.interruptDevice index] using h
    | flash image =>
      simp only [Record.act, perform, flash]
      cases Memory.ofImage image <;> exact h

end burning

theorem burning_actAll {r : Record δ} {msg : Word} (h : r.machine.status = .onFire msg)
    (later : List (Action δ)) (hl : ∀ a ∈ later, a ≠ .reset) : Burning (r.actAll later).machine msg := by
  induction later generalizing r with
  | nil => exact burning_of_onFire h
  | cons a later ih =>
    have next := status_act_of_onFire h r.events (hl a (List.mem_cons_self ..))
    exact ih next fun b hb => hl b (List.mem_cons_of_mem _ hb)

/-- **Fire is exact and final.** Whatever happens to a new machine, at most 256 messages wait. It is on fire with
a message exactly if that is the first one refused since the last reset; then 256 messages wait, and until a
reset every call fails with this message and changes nothing. -/
theorem fire_exact_and_final (actions : List (Action δ)) (msg : Word) :
    let r := Record.actAll {} actions
    r.machine.interrupts.pending.length ≤ 256 ∧
      (r.machine.status = .onFire msg ↔ (refusedIn r.events).head? = some msg) ∧
      (r.machine.status = .onFire msg → r.machine.interrupts.pending.length = 256 ∧
        ∀ later : List (Action δ), (∀ a ∈ later, a ≠ .reset) → Burning (r.actAll later).machine msg) := by
  intro r
  have trace : r.Faithful := Record.faithful_actAll actions
  have bound : r.machine.interrupts.pending.length ≤ 256 := trace.length_le (Nat.zero_le _)
  rcases trace.refused_eq rfl with ⟨cool, none_refused⟩ | ⟨w, onFire, one_refused, full⟩
  · have cool : r.machine.status ≠ .onFire msg := cool msg
    simp [cool, none_refused, bound]
  · have onFire : r.machine.status = .onFire w := onFire
    have full : 256 ≤ r.machine.interrupts.pending.length := full
    refine ⟨bound, ?_, fun h => ⟨Nat.le_antisymm bound full, burning_actAll h⟩⟩
    simp [onFire, one_refused]

/-- More messages than the queue can hold. -/
def flood : List (Action Device) := .replicate 256 (.call (.interrupt 1)) ++ [.call (.interrupt 7)]

/-- A machine that is sent more messages than its queue can hold burns with the last of them. -/
theorem burning_of_flood :
    let r := Record.actAll {} flood
    r.machine.status = .onFire 7 ∧ r.machine.interrupts.pending.length = 256 ∧
      Burning (r.actAll [.call .cycle, .attach (.clock {}), .run 5]).machine 7 := by
  have onFire : (Record.actAll {} flood).machine.status = .onFire 7 := by decide +kernel
  obtain ⟨-, -, exact_and_final⟩ := fire_exact_and_final flood 7
  obtain ⟨full, final⟩ := exact_and_final onFire
  exact ⟨onFire, full, final _ (by simp)⟩

end Dcpu16.Machine
