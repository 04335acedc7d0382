import Dcpu16.Proofs.Cycle.WholeSteps

/-!
# Breakpoints are not run through

A tick is rounds of a whole step and a look at the breakpoints (`tick_eq_iterate`). In a round at most the instruction
at PC is fetched, and only a round that ends outside the breakpoints leaves the debugger running. So behind the first
round no instruction at a breakpoint is fetched, in this tick and in the next ones (`never_runs_through_breakpoints`).
-/

namespace Dcpu16

namespace Machine

variable {δ : Type} [Peripheral δ]

/-- In a run of `n` cycles PC comes to where it is in the last cycle that fetches, and stays there. -/
def Arrives (m : Machine δ) (n : Nat) : Prop :=
  ∃ k < n, (m.afterCycles k).Fetches ∧
    (∀ j < n, k < j → ¬ (m.afterCycles j).Fetches) ∧
    ∀ j ≤ n, k < j → (m.afterCycles j).regs.pc = (m.afterCycles n).regs.pc

section
variable {m m' : Machine δ} {n : Nat}

theorem Arrives.behind {k : Nat} (h : (m.afterCycles k).Arrives n) : m.Arrives (k + n) := by
  obtain ⟨last, before, fetches, idle, stays⟩ := h
  refine ⟨k + last, by omega, by rwa [afterCycles_add], ?_, ?_⟩
  · intro j hj later
    obtain ⟨i, rfl⟩ : ∃ i, j = k + i := ⟨j - k, by omega⟩
    rw [afterCycles_add]
    exact idle i (by omega) (by omega)
  · intro j hj later
    obtain ⟨i, rfl⟩ : ∃ i, j = k + i := ⟨j - k, by omega⟩
    rw [afterCycles_add, afterCycles_add]
    exact stays i (by omega) (by omega)

/-- With an instruction PC comes to the next one, and the cycles that pay leave it there. -/
theorem arrives_whole (h : m.Unerring (m.sleep + m.settled.cost)) : m.Arrives (m.sleep + m.settled.cost) := by
  obtain ⟨_, ok⟩ := h m.sleep (Nat.lt_add_of_pos_right m.settled.cost_pos)
  have running := running_of_ok ok
  have fetches := fetches_settled running.1
  have charge := sleep_cycle fetches (fits_of_running fetches running.2)
  have behind (i : Nat) : m.afterCycles (m.sleep + 1 + i) = m.settled.cycle.1.afterCycles i := by
    rw [afterCycles_add, afterCycles_succ, settled]
  refine ⟨m.sleep, by omega, fetches, ?_, ?_⟩
  · intro j hj later
    obtain ⟨i, rfl⟩ : ∃ i, j = m.sleep + 1 + i := ⟨j - (m.sleep + 1), by omega⟩
    rw [behind]
    exact idle_afterCycles (by omega)
  · intro j hj later
    obtain ⟨i, rfl⟩ : ∃ i, j = m.sleep + 1 + i := ⟨j - (m.sleep + 1), by omega⟩
    rw [behind, ← charge, Nat.add_comm _ 1, ← Nat.add_assoc, behind, (owed_afterCycles (by omega)).1,
      (owed_afterCycles (Nat.le_refl _)).1]

theorem behind_of_ok {executed : Option Instruction} (h : m.stepInstruction = (m', .ok executed)) :
    m.Unerring (m.sleep + m.settled.cost) ∧ m' = m.afterCycles (m.sleep + m.settled.cost) :=
  run_eq_ok.mp (run_of_step h)

/-- A step that returns a fault ends behind the cycle that returned it. -/
theorem behind_of_error {e : Fault} (h : m.stepInstruction = (m', .error e)) :
    ∃ k < m.sleep + m.settled.cost, m.Unerring k ∧ (m.afterCycles k).cycle.2 = .error e ∧
      m' = m.afterCycles (k + 1) := by
  have run := run_whole m
  rw [h] at run
  rcases run_cases m (m.sleep + m.settled.cost) with ⟨-, whole⟩ | ⟨k, hk, _, unerring, fault, stopped⟩
  · cases whole.symm.trans run
  · cases stopped.symm.trans run
    exact ⟨k, hk, unerring, fault, rfl⟩

end

end Machine

namespace Debugger

open Machine

/-- A round of a tick: a whole step, and a look at the breakpoints. -/
def round (d : Debugger) : Debugger := d.advance 1

/-- What a round can come to. -/
inductive RoundEnd (d : Debugger) : Debugger → Prop
  | paused (h : d.running = false) : RoundEnd d d
  | halted (status : String) (h : d.machine.status ≠ .running) :
      RoundEnd d { d with running := false, status }
  | fault {m' : Machine} {e : Fault} (status : String) (goes : d.running) (h : d.machine.status = .running)
      (step : d.machine.stepInstruction = (m', .error e)) :
      RoundEnd d { d with machine := m', running := false, status }
  | stop {m' : Machine} {executed : Option Instruction} (status : String) (goes : d.running)
      (step : d.machine.stepInstruction = (m', .ok executed)) (h : d.stopsAt m'.regs.pc) :
      RoundEnd d { d with machine := m', running := false, status }
  | go {m' : Machine} {executed : Option Instruction} (status : String) (goes : d.running)
      (step : d.machine.stepInstruction = (m', .ok executed)) (past : d.stopsAt m'.regs.pc = false) :
      RoundEnd d { d with machine := m', status }

theorem round_end (d : Debugger) : d.RoundEnd d.round := by
  rw [round, advance]
  cases hr : d.running with
  | false => exact .paused hr
  | true =>
    rw [if_neg (by decide)]
    by_cases hs : d.machine.status = .running
    case neg =>
      rw [if_pos (by simp [isRunning, hs])]
      exact .halted _ hs
    case pos =>
      rw [if_neg (by simp [isRunning, hs])]
      rcases step : d.machine.stepInstruction with ⟨m', e | executed⟩
      · rw [step_of_error hs step]
        exact .fault _ hr hs step
      · rw [step_of_ok step]
        rcases at? : d.stopsAt m'.regs.pc with _ | _
        · rw [if_neg (by simpa [stopsAt] using fun _ => at?)]
          exact .go _ hr step at?
        · rw [if_pos (by simpa [stopsAt, hr] using at?)]
          exact .stop _ hr step at?

/-- **What rounds do**: `k` of them take `n` cycles of the machine of `d`, and end in `e`. -/
structure Rounds (d : Debugger) (k n : Nat) (e : Debugger) : Prop where
  machine : e.machine = d.machine.afterCycles n
  cycles : e.machine.cycles = d.machine.cycles + n
  breakpoints : e.breakpoints = d.breakpoints
  paused : d.running = false → n = 0 ∧ e.running = false
  first : ∀ m ∈ (d.machine.fetches n).head?, m.regs.pc = d.machine.regs.pc
  /-- All instructions but the first are outside the breakpoints. -/
  outside : ∀ m ∈ (d.machine.fetches n).tail, d.stopsAt m.regs.pc = false
  atMost : (d.machine.fetches n).length ≤ k
  all : e.running → (d.machine.fetches n).length = k
  /-- If the rounds end before, and there was neither a fault nor a fire, PC has come to a breakpoint, and the
  instruction there is still to be executed. -/
  stops : d.running → e.running = false → d.machine.Unerring n → e.machine.status = .running →
    d.stopsAt e.machine.regs.pc ∧ e.machine.sleep = 0 ∧ d.machine.Arrives n

section
variable {d e f : Debugger} {k n : Nat}

theorem RoundEnd.past (h : d.RoundEnd e) (goes : e.running) : d.stopsAt e.machine.regs.pc = false := by
  cases h with
  | paused h => cases h.symm.trans goes
  | halted | fault | stop => cases goes
  | go _ _ _ past => exact past

/-- In the cycles of a round only the instruction at PC is fetched. -/
theorem fetched_of_le (h : n ≤ d.machine.sleep + d.machine.settled.cost) :
    (∀ m ∈ (d.machine.fetches n).head?, m.regs.pc = d.machine.regs.pc) ∧
      (∀ m ∈ (d.machine.fetches n).tail, d.stopsAt m.regs.pc = false) ∧ (d.machine.fetches n).length ≤ 1 := by
  rcases fetches_of_le h with none | one
  · rw [none]
    exact ⟨nofun, nofun, Nat.zero_le 1⟩
  · rw [one]
    refine ⟨?_, nofun, Nat.le_refl 1⟩
    rintro m ⟨⟩
    rw [toCore_settled]

theorem RoundEnd.rounds (h : d.RoundEnd e) : ∃ n, d.Rounds 1 n e := by
  cases h with
  | paused h =>
    obtain ⟨first, outside, atMost⟩ := d.fetched_of_le (Nat.zero_le _)
    refine ⟨0, rfl, rfl, rfl, fun _ => ⟨rfl, h⟩, first, outside, atMost, ?_, ?_⟩
    · intro goes
      cases h.symm.trans goes
    · intro goes
      cases h.symm.trans goes
  | halted _ h =>
    obtain ⟨first, outside, atMost⟩ := d.fetched_of_le (Nat.zero_le _)
    refine ⟨0, rfl, rfl, rfl, fun _ => ⟨rfl, rfl⟩, first, outside, atMost, nofun, ?_⟩
    intro _ _ _ runs
    exact absurd runs h
  | fault _ goes h step =>
    obtain ⟨k, hk, unerring, fault, rfl⟩ := behind_of_error step
    obtain ⟨first, outside, atMost⟩ := d.fetched_of_le (Nat.succ_le_of_lt hk)
    refine ⟨k + 1, rfl, ?_, rfl, fun paused => ?_, first, outside, atMost, nofun, ?_⟩
    · show (d.machine.afterCycles (k + 1)).cycles = _
      rw [afterCycles_succ, cycles_cycle (running_of_unerring unerring h), cycles_afterCycles unerring, Nat.add_assoc]
    · cases goes.symm.trans paused
    · intro _ _ all
      obtain ⟨_, ok⟩ := all k (Nat.lt_succ_self k)
      cases fault.symm.trans ok
  | stop _ goes step h =>
    obtain ⟨_, -, whole⟩ := wholeStep_of_ok step
    obtain ⟨unerring, rfl⟩ := behind_of_ok step
    obtain ⟨first, outside, atMost⟩ := d.fetched_of_le (Nat.le_refl _)
    refine ⟨_, rfl, cycles_afterCycles unerring, rfl, fun paused => ?_, first, outside, atMost, nofun, ?_⟩
    · cases goes.symm.trans paused
    · intro _ _ _ _
      exact ⟨h, whole.paid, arrives_whole unerring⟩
  | go _ goes step past =>
    obtain ⟨_, -, whole⟩ := wholeStep_of_ok step
    obtain ⟨unerring, rfl⟩ := behind_of_ok step
    obtain ⟨first, outside, atMost⟩ := d.fetched_of_le (Nat.le_refl _)
    refine ⟨_, rfl, cycles_afterCycles unerring, rfl, fun paused => ?_, first, outside, atMost, fun _ => ?_, ?_⟩
    · cases goes.symm.trans paused
    · rw [whole.once]
      rfl
    · intro _ halts
      cases halts.symm.trans goes

/-- Rounds that start outside the breakpoints stay there. -/
theorem Rounds.outside_of_past (h : d.Rounds k n e) (past : d.stopsAt d.machine.regs.pc = false) :
    ∀ m ∈ d.machine.fetches n, d.stopsAt m.regs.pc = false := by
  have first := h.first
  have outside := h.outside
  intro m hm
  cases hf : d.machine.fetches n with
  | nil =>
    rw [hf] at hm
    cases hm
  | cons x xs =>
    rw [hf] at hm first outside
    rcases List.mem_cons.mp hm with rfl | later
    · rw [first m rfl]
      exact past
    · exact outside m later

/-- A round that halts the debugger is the last one that does anything. -/
theorem Rounds.cons_of_paused {b : Nat} (now : d.Rounds 1 n e) (halts : e.running = false) (rest : e.Rounds k b f) :
    d.Rounds (k + 1) (n + b) f := by
  obtain ⟨rfl, paused⟩ := rest.paused halts
  have same : f.machine = e.machine := rest.machine
  refine ⟨same.trans now.machine, ?_, rest.breakpoints.trans now.breakpoints, fun h => ⟨(now.paused h).1, paused⟩,
    now.first, now.outside, ?_, ?_, ?_⟩
  · rw [same]
    exact now.cycles
  · exact Nat.le_trans now.atMost (Nat.le_add_left 1 k)
  · intro goes
    cases paused.symm.trans goes
  · intro goes _ unerring runs
    rw [same] at runs ⊢
    exact now.stops goes halts unerring runs

theorem Rounds.cons_of_running {b : Nat} (now : d.Rounds 1 n e) (goes : e.running)
    (past : d.stopsAt e.machine.regs.pc = false) (rest : e.Rounds k b f) : d.Rounds (k + 1) (n + b) f := by
  have stopsAt (p : Word) : e.stopsAt p = d.stopsAt p := by rw [Debugger.stopsAt, now.breakpoints, Debugger.stopsAt]
  -- the other rounds do not start at a breakpoint, so the exception is only for the first
  have outside := rest.outside_of_past ((stopsAt _).trans past)
  obtain ⟨x, single⟩ := List.length_eq_one_iff.mp (now.all goes)
  have fetches : d.machine.fetches (n + b) = x :: e.machine.fetches b := by
    rw [fetches_add, single, now.machine]
    rfl
  have start : d.running := by
    cases hr : d.running with
    | true => rfl
    | false => cases (now.paused hr).2.symm.trans goes
  refine ⟨?_, ?_, rest.breakpoints.trans now.breakpoints, fun h => ?_, ?_, ?_, ?_, ?_, ?_⟩
  · rw [rest.machine, now.machine, afterCycles_add]
  · rw [rest.cycles, now.cycles, Nat.add_assoc]
  · cases start.symm.trans h
  · have first := now.first
    rw [single] at first
    rw [fetches]
    exact first
  · rw [fetches]
    intro m hm
    rw [← stopsAt]
    exact outside m hm
  · rw [fetches]
    exact Nat.succ_le_succ rest.atMost
  · intro still
    rw [fetches, List.length_cons, rest.all still]
  · intro _ halts unerring runs
    have later : e.machine.Unerring b := by
      rw [now.machine]
      exact unerring.behind
    obtain ⟨stops, paid, arrives⟩ := rest.stops goes halts later runs
    rw [now.machine] at arrives
    exact ⟨(stopsAt _).symm.trans stops, paid, arrives.behind⟩

theorem rounds (d : Debugger) (k : Nat) : ∃ n, d.Rounds k n (round^[k] d) := by
  induction k generalizing d with
  | zero =>
    refine ⟨0, rfl, rfl, rfl, fun h => ⟨rfl, h⟩, nofun, nofun, Nat.le_refl 0, fun _ => rfl, ?_⟩
    intro goes halts
    cases halts.symm.trans goes
  | succ k ih =>
    have ends := d.round_end
    obtain ⟨a, now⟩ := ends.rounds
    obtain ⟨b, rest⟩ := ih d.round
    refine ⟨a + b, ?_⟩
    rw [Function.iterate_succ_apply]
    cases hr : d.round.running with
    | false => exact now.cons_of_paused hr rest
    | true => exact now.cons_of_running hr (ends.past hr) rest

/-! ## Ticks -/

theorem advance_of_paused (h : d.running = false) (n : Nat) : d.advance n = d := by
  cases n with
  | zero => rfl
  | succ n => rw [advance, h]; rfl

theorem advance_succ (d : Debugger) (n : Nat) : d.advance (n + 1) = d.round.advance n := by
  rw [advance, round, advance]
  split
  · next h => exact (advance_of_paused (by simpa using h) n).symm
  · split
    · exact (advance_of_paused rfl n).symm
    · -- both take the same step, and one that stops at a breakpoint leaves nothing to advance
      show (if _ then _ else _) = advance (if _ then _ else _) n
      split
      · exact (advance_of_paused rfl n).symm
      · rfl

theorem advance_eq_iterate (d : Debugger) (n : Nat) : d.advance n = round^[n] d := by
  induction n generalizing d with
  | zero => rfl
  | succ n ih => rw [advance_succ, ih, Function.iterate_succ_apply]

theorem tick_eq_iterate : tick = round^[tickSize] := funext fun d => d.advance_eq_iterate tickSize

end

/-- **Breakpoints are not run through.** However often a debugger that was told to run ticks, every instruction that it
executes is outside the breakpoints, except possibly the first one, which is at PC. A tick executes no more instructions
than its size, and where it ends the run without a fault or a fire, PC has come to a breakpoint whose instruction is
still to be executed. -/
theorem never_runs_through_breakpoints (d : Debugger) (k : Nat) :
    let e := tick^[k] d.run
    (∃ n, d.run.Rounds (tickSize * k) n e) ∧ ∃ n, e.Rounds tickSize n e.tick := by
  intro e
  constructor
  · have := d.run.rounds (tickSize * k)
    rwa [Function.iterate_mul, ← tick_eq_iterate] at this
  · have := e.rounds tickSize
    rwa [← tick_eq_iterate] at this

/-- A loop of three instructions with a breakpoint at the second one, where the machine is. -/
def looping : Debugger where
  machine := { mem := Memory.blank.writeFrom 0 [0x8802, 0x0021, 0x8781], regs.pc := 1 }
  program := [0x8802, 0x0021, 0x8781]
  breakpoints := [1]

/-- The tick passes the breakpoint that it starts at, and stops when the loop comes back to it. -/
theorem never_runs_through_breakpoints_of_looping :
    looping.run.tick.machine.cycles = 4 ∧ looping.stopsAt looping.run.tick.machine.regs.pc ∧
      looping.machine.Arrives 4 := by
  obtain ⟨-, n, rounds⟩ := never_runs_through_breakpoints looping 0
  have rounds : looping.run.Rounds tickSize n looping.run.tick := rounds
  have cycles : looping.run.tick.machine.cycles = 4 := by decide +kernel
  obtain rfl : 4 = n := by
    have counted := cycles.symm.trans rounds.cycles
    rwa [show looping.run.machine.cycles = 0 from rfl, Nat.zero_add] at counted
  have unerring : looping.machine.Unerring 4 := by decide +kernel
  obtain ⟨stops, -, arrives⟩ := rounds.stops rfl (by decide +kernel) unerring (by decide +kernel)
  exact ⟨cycles, stops, arrives⟩

end Debugger

end Dcpu16
