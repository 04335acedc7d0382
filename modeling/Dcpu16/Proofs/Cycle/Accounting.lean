import Dcpu16.Proofs.Cycle
import Dcpu16.Proofs.Skip

/-!
# Cycles are accounted for

An instruction costs its own cycles, one for each next word and one for each instruction that it skips. The machine
executes it in the first of these cycles and pays for the others in the ones that follow, in which nothing happens but
what the devices do. So the cycle in which an instruction is fetched is the sum of the costs of those before it
(`cycles_accounted`).
-/

namespace Dcpu16

/-! ## Costs -/

theorem Instruction.cycles_pos (i : Instruction) : 0 < i.cycles := by
  have basic (op : BasicOp) : 0 < op.cycles := by cases op <;> decide
  have special (op : SpecialOp) : 0 < op.cycles := by cases op <;> decide
  cases i with
  | basic op b a => exact basic op
  | special op a => exact special op

namespace Core

/-- Whether an instruction at PC is a test that fails. -/
def fails (s : Core) : Instruction → Bool
  | .basic op b a =>
    let value := (s.past.after a).load (s.past.resolve a).1
    let before := (s.past.after a).after b
    op.effect (before.load ((s.past.after a).resolve b).1) value before.regs.ex = .test false
  | .special _ _ => false

theorem snd_applyBasic (s : Core) (op : BasicOp) (dest : Location) (value : Word) :
    (s.applyBasic op dest value).2 =
      if op.effect (s.load dest) value s.regs.ex = .test false then s.skip.2 else 0 := by
  unfold applyBasic
  split
  · next failed => rw [if_pos failed]
  · next passed => rw [if_neg passed]

/-- A basic operation skips only as a test that fails. -/
theorem snd_basic_past (s : Core) (op : BasicOp) (b a : Operand) :
    (s.past.basic op b a).2 = if s.fails (.basic op b a) then (s.resolved (.basic op b a)).skip.2 else 0 := by
  simp only [fails, decide_eq_true_eq]
  exact snd_applyBasic ..

end Core

namespace Machine

open QueueEvent

variable {δ : Type}

/-- The cycles that the instruction at PC costs; a reserved word costs one. -/
def cost (m : Machine δ) : Nat :=
  match Instruction.decode m.toCore.fetch with
  | .ok i => i.cycles + i.extraWords + if m.toCore.fails i then (m.toCore.resolved i).skip.2 else 0
  | .error _ => 1

/-- What the instructions that machines fetch cost together. -/
def totalCost : List (Machine δ) → Nat
  | [] => 0
  | m :: ms => m.cost + totalCost ms

variable [Peripheral δ]

/-- The machine after a number of cycles. -/
def afterCycles (m : Machine δ) : (n : Nat) → Machine δ
  | 0 => m
  | n + 1 => m.cycle.1.afterCycles n

/-- The machines that fetch, in a run of `n` cycles. -/
def fetches (m : Machine δ) (n : Nat) : List (Machine δ) :=
  ((List.range n).map m.afterCycles).filter (decide <| Fetches ·)

/-- **What a cycle that fetches charges**, and what it returns if the machine runs behind it. -/
structure Charged (m : Machine δ) : Prop where
  /-- A test that fails skips the instructions up to the first that is not conditional, and that one with them. -/
  failed {i : Instruction} {k : Nat} (h : Instruction.decode m.toCore.fetch = .ok i) (test : m.toCore.fails i)
    (ends : (m.toCore.resolved i).mem.FirstPlain (m.toCore.resolved i).regs.pc k) :
    m.cost = i.cycles + i.extraWords + (k + 1)
  other {i : Instruction} (h : Instruction.decode m.toCore.fetch = .ok i) (test : m.toCore.fails i = false) :
    m.cost = i.cycles + i.extraWords
  /-- The next words that are charged are those that PC passes. -/
  words {i : Instruction} (h : Instruction.decode m.toCore.fetch = .ok i) :
    (m.toCore.resolved i).regs.pc = m.regs.pc + UInt16.ofNat (1 + i.extraWords)
  reserved {e : DecodeError} (h : Instruction.decode m.toCore.fetch = .error e) : m.cost = 1
  /-- The cycle itself is paid; the rest is left to the cycles behind it. -/
  owed (fits : m.cost < 0x10000) : m.cycle.1.sleep + 1 = m.cost
  /-- A cost that is no word ends the program. -/
  leaves : m.cycle.1.status = .overflowed ↔ 0x10000 ≤ m.cost
  outcome (runs : m.cycle.1.status = .running) :
    m.cycle.2 = match Instruction.decode m.toCore.fetch with
      | .ok i => .ok (some i)
      | .error e => .error (.decode e)

/-- **What a cycle that pays does**: apart from the counters only the devices change, and the messages that they raise
are put behind those that wait. It returns that nothing was executed, or the message that found the queue full. -/
structure Pays (m : Machine δ) : Prop where
  frame : ∃ devices status, m.cycle.1 =
    { m with
      cycles := m.cycles + 1, sleep := m.sleep - 1, devices, status,
      interrupts := { m.interrupts with pending := m.interrupts.pending ++ acceptedIn m.deviceEvents } }
  outcome : m.cycle.2 = .ok none ∧ m.cycle.1.status = .running ∨
    ∃ msg, refusedIn m.deviceEvents = [msg] ∧ m.cycle.2 = .error (.onFire msg) ∧ m.cycle.1.status = .onFire msg

/-- The machine with `n` cycles paid: they were counted, and changed only the devices and what these raised. -/
def Paid (m : Machine δ) (n : Nat) (paid : Machine δ) : Prop :=
  ∃ devices raised, paid =
    { m with
      cycles := m.cycles + n, sleep := m.sleep - n, devices,
      interrupts := { m.interrupts with pending := m.interrupts.pending ++ raised } }

/-! ## Cycles that fetch -/

section
variable {m : Machine δ}

omit [Peripheral δ] in
theorem cost_pos (m : Machine δ) : 0 < m.cost := by
  unfold cost
  split
  · next i _ =>
    have := i.cycles_pos
    omega
  · exact Nat.one_pos

theorem executed_of_basic {op : BasicOp} {b a : Operand}
    (h : Instruction.decode m.toCore.fetch = .ok (.basic op b a)) :
    m.executed =
      ({ m with toCore := (m.toCore.past.basic op b a).1, cycles := m.cycles + 1 } : Machine δ).charge m.cost := by
  rw [executed_of_ok h, cost, h]
  simp only [execute]
  rw [Core.snd_basic_past]

theorem executed_of_special {op : SpecialOp} {a : Operand}
    (h : Instruction.decode m.toCore.fetch = .ok (.special op a)) :
    m.executed =
      (({ m with toCore := m.toCore.past, cycles := m.cycles + 1 } : Machine δ).special op a).charge m.cost := by
  rw [executed_of_ok h, cost, h]
  rfl

theorem status_special_ne (h : m.status = .running) (op : SpecialOp) (a : Operand) :
    (m.special op a).status ≠ .overflowed := by
  by_cases int : op = .int
  · subst int
    simp only [special, applySpecial, raise]
    split
    · rw [h]
      rintro ⟨⟩
    · rintro ⟨⟩
  · have same : (m.special op a).status = m.status := congrArg QueueState.status (queueState_special m op a int)
    rw [same, h]
    rintro ⟨⟩

/-- An instruction runs without ending the program, and then its cost is charged. -/
theorem exists_charged (h : m.status = .running) {i : Instruction} (hd : Instruction.decode m.toCore.fetch = .ok i) :
    ∃ done : Machine δ, done.status ≠ .overflowed ∧ m.executed = done.charge m.cost := by
  cases i with
  | basic op b a => exact ⟨_, by simp [h], executed_of_basic hd⟩
  | special op a =>
    let before : Machine δ := { m with toCore := m.toCore.past, cycles := m.cycles + 1 }
    exact ⟨before.special op a, status_special_ne (m := before) h op a, executed_of_special hd⟩

/-- A cost that is a word is left, less the cycle in which the instruction runs. -/
theorem sleep_executed (h : m.Fetches) (fits : m.cost < 0x10000) : m.executed.sleep + 1 = m.cost := by
  cases hd : Instruction.decode m.toCore.fetch with
  | error e =>
    rw [executed_of_error hd, cost, hd]
    exact congrArg (· + 1) h.2
  | ok i =>
    obtain ⟨done, -, charged⟩ := exists_charged h.1 hd
    rw [charged, charge_of_fits fits]
    exact Nat.sub_add_cancel m.cost_pos

/-- An instruction ends the program with a cost that is no word, and only so. -/
theorem status_executed_iff (h : m.status = .running) : m.executed.status = .overflowed ↔ 0x10000 ≤ m.cost := by
  cases hd : Instruction.decode m.toCore.fetch with
  | error e =>
    have reserved : m.cost = 1 := by rw [cost, hd]
    rw [executed_of_error hd, reserved]
    exact iff_of_false (by simp [h]) (by decide)
  | ok i =>
    obtain ⟨done, goesOn, charged⟩ := exists_charged h hd
    rw [charged]
    rcases Nat.lt_or_ge m.cost 0x10000 with fits | leaves
    · rw [charge_of_fits fits]
      exact iff_of_false goesOn (Nat.not_le.mpr fits)
    · rw [charge_of_leaves leaves]
      exact iff_of_true rfl leaves

theorem sleep_cycle (h : m.Fetches) (fits : m.cost < 0x10000) : m.cycle.1.sleep + 1 = m.cost := by
  rw [(counters_cycle h.1).2, sleep_advanced_of_awake h.2, sleep_executed h fits]

theorem status_cycle_iff (h : m.Fetches) : m.cycle.1.status = .overflowed ↔ 0x10000 ≤ m.cost := by
  rw [← status_executed_iff h.1]
  by_cases runs : m.executed.status = .running
  · rw [cycle_of_fetches h runs, runs]
    exact iff_of_false (status_cycleAll_ne _ _) nofun
  · rw [cycle_of_executed h runs]

/-- A machine that runs on has paid a cost that is a word. -/
theorem fits_of_running (h : m.Fetches) (runs : m.cycle.1.status = .running) : m.cost < 0x10000 := by
  rcases Nat.lt_or_ge m.cost 0x10000 with fits | leaves
  · exact fits
  · rw [(status_cycle_iff h).mpr leaves] at runs
    cases runs

theorem charged (h : m.Fetches) : m.Charged where
  failed hd test ends := by simp only [cost, hd, if_pos test, Core.skip_of_firstPlain ends]
  other hd test := by simp only [cost, hd, test, Bool.false_eq_true, if_false, Nat.add_zero]
  words _ := Core.pc_resolved ..
  reserved hd := by simp only [cost, hd]
  owed := sleep_cycle h
  leaves := status_cycle_iff h
  outcome runs := (outcome_cycle h.1 runs).trans (outcome_advance (m := { m with cycles := m.cycles + 1 }) h.2)

/-! ## Cycles that pay -/

theorem pays (h : m.status = .running) (asleep : 0 < m.sleep) : m.Pays := by
  have running : m.isRunning := m.isRunning_iff.mpr h
  have advanced := m.advanced_of_sleep asleep
  have advances : m.advanced.isRunning := by rw [advanced]; exact running
  have events : m.deviceEvents = cycleAllEvents m.devices m.interrupts := by
    rw [deviceEvents, if_pos ⟨running, advances⟩, advanced]
  have behind : m.cycle.1 = ({ m with cycles := m.cycles + 1, sleep := m.sleep - 1 } : Machine δ).cycleDevices := by
    rw [cycle_of_running m h, if_pos advances, advanced]
  have pause : ({ m with cycles := m.cycles + 1 } : Machine δ).advance.2 = .ok none := by rw [advance, if_pos asleep]
  constructor
  · refine ⟨(cycleAll m.devices m.interrupts).1, (cycleAll m.devices m.interrupts).2.2, behind.trans ?_⟩
    rw [events, ← interrupts_cycleAll]
    rfl
  · rcases status_cycle h advances with ⟨runs, -⟩ | ⟨msg, burns, refused⟩
    · exact .inl ⟨(outcome_cycle h runs).trans pause, runs⟩
    · exact .inr ⟨msg, refused, outcome_cycle_of_onFire burns, burns⟩

theorem afterCycles_of_stopped (h : m.status ≠ .running) (n : Nat) : m.afterCycles n = m := by
  induction n with
  | zero => rfl
  | succ n ih => rw [afterCycles, cycle_of_stopped m h, ih]

/-- A machine that runs behind some cycles has run from the start. -/
theorem running_of_afterCycles {n : Nat} (runs : (m.afterCycles n).status = .running) : m.status = .running := by
  induction n generalizing m with
  | zero => exact runs
  | succ n ih => exact running_of_cycle (ih runs)

/-- As long as there is something to pay, a run pays. -/
theorem paid_afterCycles {n : Nat} (h : m.status = .running) (owed : n ≤ m.sleep)
    (runs : (m.afterCycles n).status = .running) : m.Paid n (m.afterCycles n) := by
  induction n generalizing m with
  | zero => exact ⟨m.devices, [], by rw [List.append_nil]; rfl⟩
  | succ n ih =>
    have now := pays h (by omega)
    have running : m.cycle.1.status = .running := running_of_afterCycles runs
    obtain ⟨devices, status, frame⟩ := now.frame
    have left : m.cycle.1.sleep = m.sleep - 1 := by rw [frame]
    obtain ⟨later, raised, rest⟩ := ih running (by omega) runs
    refine ⟨later, acceptedIn m.deviceEvents ++ raised, rest.trans ?_⟩
    rw [frame] at running ⊢
    simp only [Machine.mk.injEq, List.append_assoc, true_and, and_true]
    exact ⟨running.trans h.symm, by omega, by omega⟩

/-! ## Runs -/

theorem fetches_succ (n : Nat) :
    m.fetches (n + 1) = if m.Fetches then m :: m.cycle.1.fetches n else m.cycle.1.fetches n := by
  simp only [fetches, List.range_succ_eq_map, List.map_cons, List.map_map, List.filter_cons, decide_eq_true_eq]
  rfl

/-- A machine that does not run fetches nothing. -/
theorem fetches_of_stopped (h : m.status ≠ .running) (n : Nat) : m.fetches n = [] := by
  induction n with
  | zero => rfl
  | succ n ih => rw [fetches_succ, cycle_of_stopped m h, ih, if_neg fun fetches => h fetches.1]

/-- By the time an instruction is fetched, what was left to pay at the start of the run is paid, and so is what the
instructions before it cost. -/
theorem cycles_of_fetches {n : Nat} {before behind : List (Machine δ)} {next : Machine δ}
    (h : m.fetches n = before ++ next :: behind) :
    next.cycles = m.cycles + m.sleep + totalCost before := by
  -- cycles counted and cycles owed have the same sum before and behind a cycle that pays
  induction n generalizing m before with
  | zero => cases before <;> cases h
  | succ n ih =>
    rw [fetches_succ] at h
    by_cases hm : m.status = .running
    · have counted : m.cycle.1.cycles = m.cycles + 1 := (counters_cycle hm).1.trans cycles_advanced
      rcases Nat.eq_zero_or_pos m.sleep with awake | asleep
      · have fetches : m.Fetches := ⟨hm, awake⟩
        rw [if_pos fetches] at h
        cases before with
        | nil =>
          obtain ⟨rfl, -⟩ := List.cons.inj h
          rw [awake]
          rfl
        | cons first before =>
          obtain ⟨rfl, later⟩ := List.cons.inj h
          -- behind an overflow nothing more would be fetched
          have running : m.cycle.1.status = .running := by
            by_cases runs : m.cycle.1.status = .running
            · exact runs
            · rw [fetches_of_stopped runs] at later
              exact absurd later.symm (List.append_ne_nil_of_right_ne_nil _ (List.cons_ne_nil _ _))
          have charge := sleep_cycle fetches (fits_of_running fetches running)
          have rest := ih later
          rw [totalCost]
          omega
      · have idle : ¬ m.Fetches := fun fetches => Nat.ne_of_gt asleep fetches.2
        have paid : m.cycle.1.sleep = m.sleep - 1 := by
          obtain ⟨_, _, frame⟩ := (pays hm asleep).frame
          rw [frame]
        rw [if_neg idle] at h
        have rest := ih h
        omega
    · rw [fetches_of_stopped (m := m.cycle.1) (by rwa [cycle_of_stopped m hm]), if_neg fun fetches => hm fetches.1] at h
      exact absurd h.symm (List.append_ne_nil_of_right_ne_nil _ (List.cons_ne_nil _ _))

end

/-- **Cycles are accounted for.** A cycle that fetches leaves the cost of the instruction less one to pay, if it is a
word, and ends the program if not. As long as the machine does not catch fire, the next cycles pay for it and change
only devices and what these raise, and the one behind them fetches. So an instruction is fetched as many cycles later as
those before it cost together. -/
theorem cycles_accounted {m : Machine δ} (h : m.Fetches) :
    m.Charged ∧
      (∀ n ≤ m.cycle.1.sleep, (m.cycle.1.afterCycles n).status = .running →
        m.cycle.1.Paid n (m.cycle.1.afterCycles n) ∧
          if n < m.cycle.1.sleep then (m.cycle.1.afterCycles n).Pays else (m.cycle.1.afterCycles n).Fetches) ∧
      ∀ n before next behind, m.fetches n = before ++ next :: behind →
        next.cycles = m.cycles + totalCost before := by
  refine ⟨charged h, fun n owed runs => ?_, fun n before next behind split => ?_⟩
  · have paid := paid_afterCycles (running_of_afterCycles runs) owed runs
    have left : (m.cycle.1.afterCycles n).sleep = m.cycle.1.sleep - n := by
      obtain ⟨_, _, frame⟩ := paid
      rw [frame]
    refine ⟨paid, ?_⟩
    split
    · next more => exact pays runs (by omega)
    · exact ⟨runs, by omega⟩
  · have counted := cycles_of_fetches split
    rw [h.2, Nat.add_zero] at counted
    exact counted

/-- A test that fails, a conditional instruction that takes a next word, and an assignment. -/
def failing : Machine Device := { mem := Memory.blank.writeFrom 0 [0x8413, 0x7c32, 0x1234, 0x8401] }

/-- The test costs two cycles and skips two instructions. Three of the four cycles are left to pay, and the next
instruction is fetched in the fifth. -/
theorem cycles_accounted_of_failing :
    failing.Fetches ∧ failing.cycle.1.sleep = 3 ∧ (failing.cycle.1.afterCycles 3).Fetches := by
  have fetches : failing.Fetches := ⟨rfl, rfl⟩
  obtain ⟨charged, paid, -⟩ := cycles_accounted fetches
  have decoded : Instruction.decode failing.toCore.fetch = .ok (.basic .ifn (.register .a) (.literal 0)) := by
    decide +kernel
  have cost := charged.failed decoded (k := 1) (by decide +kernel) (by decide +kernel)
  have sleep : failing.cycle.1.sleep = 3 := Nat.succ.inj ((charged.owed (by rw [cost]; decide)).trans cost)
  have runs : (failing.cycle.1.afterCycles 3).status = .running := by decide +kernel
  have last := (paid 3 (by omega) runs).2
  rw [sleep, if_neg (Nat.lt_irrefl 3)] at last
  exact ⟨fetches, sleep, last⟩

end Machine

end Dcpu16
