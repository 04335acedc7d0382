import Dcpu16.Debugger
import Dcpu16.Emulator
import Dcpu16.Proofs.Cycle.Runs
import Dcpu16.Proofs.Instruction.Inverse

/-!
# Whole steps are runs

A whole step is cycles up to the one that executes an instruction, and then those that pay for it (`Loops`). It comes to
the same as a run over what is owed and the cost of the instruction at PC (`run_whole`), so steps behind each other come
to a run over the sum (`run_steps`). The text of the instruction at PC is the text of the one that is executed, for what
is paid before it changes neither PC nor memory.
-/

namespace Dcpu16

theorem Memory.lineAt_of_decode (mem : Memory) {p : Word} {i : Instruction}
    (h : Instruction.decode (mem.read p) = .ok i) : (mem.lineAt p).1 = i.text (mem.block (p + 1) i.extraWords) := by
  have extra : (mem.read p).instructionLength - 1 = i.extraWords := by
    rw [← Instruction.size_of_decode h, Instruction.size, Nat.add_sub_cancel_left]
  show wordsText (mem.read p) (mem.block (p + 1) ((mem.read p).instructionLength - 1)) = _
  rw [wordsText, h, extra]

namespace Machine

variable {δ : Type} [Peripheral δ]

/-- Where the two loops of a whole step end: there are cycles until one executes an instruction, and from then on as
long as something is owed. The first fault ends both. -/
inductive Loops : Option Instruction → Machine δ → Machine δ × Except Fault (Option Instruction) → Prop
  | wait {m m' : Machine δ} {r} (h : m.cycle = (m', .ok none)) (rest : Loops none m' r) : Loops none m r
  | execute {m m' : Machine δ} {i r} (h : m.cycle = (m', .ok (some i))) (rest : Loops (some i) m' r) : Loops none m r
  | fault {m m' : Machine δ} {e} (h : m.cycle = (m', .error e)) : Loops none m (m', .error e)
  | pay {m m' : Machine δ} {i executed r} (owed : 0 < m.sleep) (h : m.cycle = (m', .ok executed))
      (rest : Loops (some i) m' r) : Loops (some i) m r
  | faultOwed {m m' : Machine δ} {i e} (owed : 0 < m.sleep) (h : m.cycle = (m', .error e)) :
      Loops (some i) m (m', .error e)
  | done {m : Machine δ} {i} (paid : m.sleep = 0) : Loops (some i) m (m, .ok (some i))

/-- Pays what is owed for an instruction. -/
def pay (m : Machine δ) (executed : Option Instruction) : Machine δ × Except Fault (Option Instruction) :=
  match m.run m.sleep with
  | (m, .error e) => (m, .error e)
  | (m, .ok ()) => (m, .ok executed)

/-- The machine behind `k` whole steps. -/
def afterSteps (m : Machine δ) : (k : Nat) → Machine δ
  | 0 => m
  | k + 1 => m.stepInstruction.1.afterSteps k

/-- The cycles of `k` whole steps: what is owed before each of them, and what the instruction that it executes costs. -/
def stepCycles (m : Machine δ) : (k : Nat) → Nat
  | 0 => 0
  | k + 1 => m.sleep + m.settled.cost + m.stepInstruction.1.stepCycles k

/-- The next `k` whole steps return no fault. -/
def StepsSucceed (m : Machine δ) (k : Nat) : Prop :=
  ∀ j < k, ∃ executed, (m.afterSteps j).stepInstruction.2 = .ok executed

/-- **A whole step executes one instruction**, the one at PC, of which it has the text, and is a run over what is owed
and the cost of that instruction. -/
structure WholeStep (m : Machine δ) (i : Instruction) (text : Text) (m' : Machine δ) : Prop where
  loops : ∀ r, Loops none m r ↔ r = (m', .ok (some i))
  run : m.runCounted (m.sleep + m.settled.cost) = (m', .ok (m.sleep + m.settled.cost))
  paid : m'.sleep = 0
  once : m.fetches (m.sleep + m.settled.cost) = [m.settled]
  executed : m.settled.cycle.2 = .ok (some i)
  charged : m.settled.Charged
  /-- What is paid before changes neither registers nor memory. -/
  core : m.settled.toCore = m.toCore
  decoded : Instruction.decode m.settled.toCore.fetch = .ok i
  text_eq : text = i.text (m.settled.mem.block (m.settled.regs.pc + 1) i.extraWords)

section
variable {m m' : Machine δ} {executed : Option Instruction} {n : Nat}

/-! ## Loops -/

theorem pay_of_awake (h : m.sleep = 0) : m.pay executed = (m, .ok executed) := by
  rw [pay, h]
  rfl

/-- What is behind a first cycle that pays. -/
theorem run_of_asleep (h : 0 < m.sleep) : m.run m.sleep = match m.cycle with
    | (m, .error e) => (m, .error e)
    | (m, .ok _) => m.run m.sleep := by
  obtain ⟨n, hn⟩ : ∃ n, m.sleep = n + 1 := ⟨m.sleep - 1, by omega⟩
  rw [hn, run]
  rcases hc : m.cycle with ⟨m', e | executed⟩
  · rfl
  · have running := (running_of_ok (congrArg Prod.snd hc)).1
    have left := sleep_cycle_of_asleep running h
    rw [hc] at left
    show m'.run n = m'.run m'.sleep
    rw [show m'.sleep = m.sleep - 1 from left, hn, Nat.add_sub_cancel]

theorem pay_of_asleep (h : 0 < m.sleep) : m.pay executed = match m.cycle with
    | (m, .error e) => (m, .error e)
    | (m, .ok _) => m.pay executed := by
  rw [pay, run_of_asleep h]
  rcases m.cycle with ⟨m', e | _⟩ <;> rfl

theorem stepInstruction_of_awake (h : m.sleep = 0) : m.stepInstruction = match m.cycle with
    | (m, .error e) => (m, .error e)
    | (m, .ok executed) => m.pay executed := by
  rw [stepInstruction, h]
  rfl

theorem stepInstruction_of_asleep (h : 0 < m.sleep) : m.stepInstruction = match m.cycle with
    | (m, .error e) => (m, .error e)
    | (m, .ok _) => m.stepInstruction := by
  rw [stepInstruction, run_of_asleep h]
  rcases m.cycle with ⟨m', e | _⟩ <;> rfl

theorem executed_of_fetches (h : m.Fetches) (ok : m.cycle.2 = .ok executed) :
    ∃ i, executed = some i ∧ Instruction.decode m.toCore.fetch = .ok i := by
  have outcome := (charged h).outcome (running_of_ok ok).2
  rw [ok] at outcome
  cases hd : Instruction.decode m.toCore.fetch with
  | ok i =>
    rw [hd] at outcome
    exact ⟨i, Except.ok.inj outcome, rfl⟩
  | error e =>
    rw [hd] at outcome
    cases outcome

theorem waiting_of_asleep (asleep : 0 < m.sleep) (ok : m.cycle.2 = .ok executed) : executed = none := by
  rcases (pays (running_of_ok ok).1 asleep).outcome with ⟨idle, -⟩ | ⟨_, -, fault, -⟩
  · exact Except.ok.inj (ok.symm.trans idle)
  · cases ok.symm.trans fault

theorem asleep_of_waiting (h : m.cycle.2 = .ok none) : 0 < m.sleep := by
  apply Nat.pos_of_ne_zero
  intro awake
  obtain ⟨_, some, -⟩ := executed_of_fetches ⟨(running_of_ok h).1, awake⟩ h
  cases some

theorem awake_of_executed {i : Instruction} (h : m.cycle.2 = .ok (some i)) : m.sleep = 0 := by
  apply Nat.eq_zero_of_not_pos
  intro asleep
  cases waiting_of_asleep asleep h

/-- What the loops come to, according to whether an instruction was executed already. -/
def loopsEnd (m : Machine δ) : Option Instruction → Machine δ × Except Fault (Option Instruction)
  | none => m.stepInstruction
  | some i => m.pay (some i)

theorem loopsEnd_of_loops {r : Machine δ × Except Fault (Option Instruction)} (h : Loops executed m r) :
    m.loopsEnd executed = r := by
  induction h with
  | wait h rest ih =>
    have asleep := asleep_of_waiting (congrArg Prod.snd h)
    rw [loopsEnd, stepInstruction_of_asleep asleep, h]
    exact ih
  | execute h rest ih =>
    have awake := awake_of_executed (congrArg Prod.snd h)
    rw [loopsEnd, stepInstruction_of_awake awake, h]
    exact ih
  | @fault m m' e h =>
    rcases Nat.eq_zero_or_pos m.sleep with awake | asleep
    · rw [loopsEnd, stepInstruction_of_awake awake, h]
    · rw [loopsEnd, stepInstruction_of_asleep asleep, h]
  | pay owed h rest ih =>
    rw [loopsEnd, pay_of_asleep owed, h]
    exact ih
  | faultOwed owed h => rw [loopsEnd, pay_of_asleep owed, h]
  | done paid => exact pay_of_awake paid

theorem loops_pay (m : Machine δ) (i : Instruction) : Loops (some i) m (m.pay (some i)) := by
  -- the loop ends because every turn leaves less to pay
  induction hn : m.sleep generalizing m with
  | zero =>
    rw [pay_of_awake hn]
    exact .done hn
  | succ n ih =>
    have owed : 0 < m.sleep := by omega
    rw [pay_of_asleep owed]
    rcases hc : m.cycle with ⟨m', e | executed⟩
    · exact .faultOwed owed hc
    · have left := sleep_cycle_of_asleep (running_of_ok (congrArg Prod.snd hc)).1 owed
      rw [hc, hn] at left
      exact .pay owed hc (ih m' left)

theorem loops_stepInstruction (m : Machine δ) : Loops none m m.stepInstruction := by
  induction hn : m.sleep generalizing m with
  | zero =>
    rw [stepInstruction_of_awake hn]
    rcases hc : m.cycle with ⟨m', e | _ | i⟩
    · exact .fault hc
    · exact absurd hn (Nat.ne_of_gt (asleep_of_waiting (congrArg Prod.snd hc)))
    · exact .execute hc (loops_pay m' i)
  | succ n ih =>
    have asleep : 0 < m.sleep := by omega
    rw [stepInstruction_of_asleep asleep]
    rcases hc : m.cycle with ⟨m', e | executed⟩
    · exact .fault hc
    · have left := sleep_cycle_of_asleep (running_of_ok (congrArg Prod.snd hc)).1 asleep
      obtain rfl := waiting_of_asleep asleep (congrArg Prod.snd hc)
      rw [hc, hn] at left
      exact .wait hc (ih m' left)

/-- The loops of a whole step end on every machine, in one way. -/
theorem loops_iff {r : Machine δ × Except Fault (Option Instruction)} : Loops none m r ↔ m.stepInstruction = r := by
  constructor
  · exact loopsEnd_of_loops
  · rintro rfl
    exact loops_stepInstruction m

/-! ## Runs -/

theorem stepInstruction_of_settled (paid : m.Unerring m.sleep) : m.stepInstruction = match m.settled.cycle with
    | (m, .error e) => (m, .error e)
    | (m, .ok executed) => m.pay executed := by
  rw [stepInstruction, run_eq_ok.mpr ⟨paid, rfl⟩]
  rfl

/-- **A whole step is a run** over what is owed and the cost of the instruction at PC, with and without a fault. -/
theorem run_whole (m : Machine δ) :
    m.run (m.sleep + m.settled.cost) = (m.stepInstruction.1, m.stepInstruction.2.map fun _ => ()) := by
  rw [run_add]
  rcases run_cases m m.sleep with ⟨unerring, paid⟩ | ⟨k, -, e, -, -, stopped⟩
  · rw [paid, stepInstruction_of_settled unerring]
    show m.settled.run m.settled.cost = _
    obtain ⟨more, cost⟩ : ∃ more, m.settled.cost = more + 1 :=
      ⟨m.settled.cost - 1, (Nat.sub_add_cancel m.settled.cost_pos).symm⟩
    -- behind the cycle that executes, the rest of the cost is what is owed
    rw [cost, run]
    rcases hc : m.settled.cycle with ⟨m', e | executed⟩
    · rfl
    · have running := running_of_ok (congrArg Prod.snd hc)
      have fetches := fetches_settled running.1
      have charge := sleep_cycle fetches (fits_of_running fetches running.2)
      rw [hc, cost] at charge
      show m'.run more = ((m'.pay executed).1, (m'.pay executed).2.map fun _ => ())
      rw [pay, show more = m'.sleep from (Nat.succ.inj charge).symm]
      rcases m'.run m'.sleep with ⟨m'', e | _⟩ <;> rfl
  · rw [stepInstruction, stopped]
    rfl

theorem run_of_step (h : m.stepInstruction = (m', .ok executed)) :
    m.run (m.sleep + m.settled.cost) = (m', .ok ()) := by
  rw [run_whole, h]
  rfl

theorem pay_eq_ok {returned : Option Instruction} (h : m.pay executed = (m', .ok returned)) :
    returned = executed ∧ m.Unerring m.sleep ∧ m' = m.settled := by
  rw [pay] at h
  rcases run_cases m m.sleep with ⟨unerring, paid⟩ | ⟨_, _, _, _, _, stopped⟩
  · rw [paid] at h
    cases h
    exact ⟨rfl, unerring, rfl⟩
  · rw [stopped] at h
    cases h

theorem wholeStep_of_ok (h : m.stepInstruction = (m', .ok executed)) :
    ∃ i, executed = some i ∧ m.WholeStep i (m.mem.lineAt m.regs.pc).1 m' := by
  have whole := run_of_step h
  have unerring := (run_eq_ok.mp whole).1
  obtain ⟨returned, ok⟩ := unerring m.sleep (Nat.lt_add_of_pos_right m.settled.cost_pos)
  have running := (running_of_ok ok).1
  have fetches := fetches_settled running
  have core := toCore_settled m
  obtain ⟨i, rfl, decoded⟩ : ∃ i, returned = some i ∧ Instruction.decode m.settled.toCore.fetch = .ok i :=
    executed_of_fetches fetches ok
  have cycle : m.settled.cycle = (m.settled.cycle.1, .ok (some i)) := by rw [← show m.settled.cycle.2 = _ from ok]
  have pays : m.settled.cycle.1.pay (some i) = (m', .ok executed) := by
    rw [stepInstruction_of_settled (unerring.mono (Nat.le_add_right ..)), cycle] at h
    exact h
  obtain ⟨rfl, paid, rfl⟩ := pay_eq_ok pays
  have behind := fetches_settled (running_of_unerring paid (running_of_ok ok).2)
  have once : m.fetches (m.sleep + m.settled.cost) = [m.settled] := by
    rw [← Nat.sub_add_cancel m.settled.cost_pos]
    exact fetches_of_lt running (Nat.sub_lt m.settled.cost_pos Nat.one_pos)
  have loops (r) : Loops none m r ↔ r = (m.settled.cycle.1.settled, .ok (some i)) := by rw [loops_iff, h, eq_comm]
  refine ⟨i, rfl, loops, runCounted_of_run whole, behind.2, once, ok, charged fetches, core, decoded, ?_⟩
  rw [core] at decoded ⊢
  exact m.mem.lineAt_of_decode decoded

/-! ## Steps behind each other -/

theorem run_steps {k : Nat} (h : m.StepsSucceed k) : m.run (m.stepCycles k) = (m.afterSteps k, .ok ()) := by
  induction k generalizing m with
  | zero => rfl
  | succ k ih =>
    obtain ⟨executed, ok⟩ := h 0 (Nat.succ_pos k)
    have first : m.stepInstruction = (m.stepInstruction.1, .ok executed) := by
      rw [← show m.stepInstruction.2 = _ from ok]
    have rest : m.stepInstruction.1.StepsSucceed k := fun j hj => h (j + 1) (Nat.succ_lt_succ hj)
    rw [stepCycles, run_add, run_of_step first]
    exact ih rest

end

end Machine

/-! ## Debugger and emulator -/

theorem Machine.stepInstruction_of_stopped {m : Machine} (h : m.status ≠ .running) :
    ∃ e, m.stepInstruction = (m, .error e) := by
  obtain ⟨e, stops⟩ := Machine.cycle_eq_of_stopped m h
  refine ⟨e, ?_⟩
  rcases Nat.eq_zero_or_pos m.sleep with awake | asleep
  · rw [Machine.stepInstruction_of_awake awake, stops]
  · rw [Machine.stepInstruction_of_asleep asleep, stops]

namespace Debugger

section
variable {d : Debugger} {m' : Machine}

theorem step_of_stopped (h : d.machine.status ≠ .running) :
    d.step = { d with running := false, status := "CPU halted: " ++ d.machine.status.text } := by
  cases status : d.machine.status with
  | running => exact absurd status h
  | onFire _ | overflowed => simp only [step, status]

theorem step_of_ok {executed : Option Instruction} (h : d.machine.stepInstruction = (m', .ok executed)) :
    d.step = { d with
      machine := m', status := place d.machine.regs.pc ++ ": " ++
        String.ofList (d.machine.mem.lineAt d.machine.regs.pc).1 } := by
  by_cases hs : d.machine.status = .running
  · simp only [step, hs, h]
  · obtain ⟨_, stops⟩ := Machine.stepInstruction_of_stopped hs
    rw [stops] at h
    cases h

theorem step_of_error {e : Fault} (running : d.machine.status = .running)
    (h : d.machine.stepInstruction = (m', .error e)) :
    d.step = { d with
      machine := m', running := false, status := "Error at " ++ place d.machine.regs.pc ++ ": " ++ e.message } := by
  simp only [step, running, h]

/-- A step moves the machine by one whole instruction, with and without a fault. -/
theorem machine_step (d : Debugger) : d.step.machine = d.machine.stepInstruction.1 := by
  by_cases hs : d.machine.status = .running
  · rcases h : d.machine.stepInstruction with ⟨m', e | executed⟩
    · rw [step_of_error hs h]
    · rw [step_of_ok h]
  · obtain ⟨_, stops⟩ := Machine.stepInstruction_of_stopped hs
    rw [step_of_stopped hs, stops]

theorem machine_iterate_step (d : Debugger) (k : Nat) : (step^[k] d).machine = d.machine.afterSteps k := by
  induction k generalizing d with
  | zero => rfl
  | succ k ih => rw [Function.iterate_succ_apply, ih, machine_step, Machine.afterSteps]

end

end Debugger

namespace Emulator

theorem step_eq (e : Emulator) : e.step =
    ({ e with machine := e.machine.stepInstruction.1 },
      e.machine.stepInstruction.2.map fun _ => (e.machine.mem.lineAt e.machine.regs.pc).1) := rfl

theorem machine_iterate_step (e : Emulator) (k : Nat) :
    ((fun e => e.step.1)^[k] e).machine = e.machine.afterSteps k := by
  induction k generalizing e with
  | zero => rfl
  | succ k ih => rw [Function.iterate_succ_apply, ih, step_eq, Machine.afterSteps]

end Emulator

/-- **Single steps and runs agree.** A step that succeeds, of a debugger or an emulator, executes one instruction and
ends where a run over what was owed and the cost of that instruction ends. It shows the text of the instruction that it
executed. So any number of steps that succeed is one run over the sum of their cycles. -/
theorem steps_agree_with_runs {m m' : Machine} {executed : Option Instruction}
    (h : m.stepInstruction = (m', .ok executed)) :
    let text := (m.mem.lineAt m.regs.pc).1
    (∃ i, executed = some i ∧ m.WholeStep i text m') ∧
      (∀ d : Debugger, d.machine = m → d.step = { d with
        machine := m', status := Debugger.place m.regs.pc ++ ": " ++ String.ofList text }) ∧
      (∀ e : Emulator, e.machine = m → e.step = ({ e with machine := m' }, .ok text)) ∧
      ∀ k, m.StepsSucceed k →
        m.runCounted (m.stepCycles k) = (m.afterSteps k, .ok (m.stepCycles k)) ∧
          (∀ d : Debugger, d.machine = m → (Debugger.step^[k] d).machine = m.afterSteps k) ∧
          ∀ e : Emulator, e.machine = m → ((fun e => e.step.1)^[k] e).machine = m.afterSteps k := by
  intro text
  refine ⟨Machine.wholeStep_of_ok h, ?_, ?_, ?_⟩
  · rintro d rfl
    exact Debugger.step_of_ok h
  · rintro e rfl
    rw [Emulator.step_eq, h]
    rfl
  · intro k succeed
    refine ⟨Machine.runCounted_of_run (Machine.run_steps succeed), ?_, ?_⟩
    · rintro d rfl
      exact d.machine_iterate_step k
    · rintro e rfl
      exact e.machine_iterate_step k

/-- A machine that has two cycles to pay before it assigns a next word. -/
def Machine.owing : Machine := { mem := Memory.blank.writeFrom 0 [0x7c21, 0x1234], sleep := 2 }

theorem steps_agree_with_runs_of_owing :
    ∃ m', Machine.owing.stepInstruction = (m', .ok (some (.basic .set (.register .b) .next))) ∧
      Machine.owing.WholeStep (.basic .set (.register .b) .next) "SET B, 0x1234".toList m' ∧
      Machine.owing.runCounted 4 = (m', .ok 4) := by
  have succeeds : Machine.owing.stepInstruction.2.isOk := by decide +kernel
  have decoded : Instruction.decode Machine.owing.settled.toCore.fetch = .ok (.basic .set (.register .b) .next) := by
    decide +kernel
  have text : (Machine.owing.mem.lineAt Machine.owing.regs.pc).1 = "SET B, 0x1234".toList := by decide +kernel
  have cycles : Machine.owing.sleep + Machine.owing.settled.cost = 4 := by decide +kernel
  obtain ⟨executed, ok⟩ := isOk_iff.mp succeeds
  obtain ⟨⟨i, rfl, whole⟩, -⟩ := steps_agree_with_runs (Prod.ext rfl ok)
  obtain rfl := Except.ok.inj (decoded.symm.trans whole.decoded)
  rw [text] at whole
  have run := whole.run
  rw [cycles] at run
  exact ⟨_, Prod.ext rfl ok, whole, run⟩

end Dcpu16
