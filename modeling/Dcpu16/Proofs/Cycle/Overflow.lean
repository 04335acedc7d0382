import Dcpu16.Proofs.Cycle.FailedTests
import Dcpu16.Proofs.Cycle.Runs
import Dcpu16.Proofs.Device.Widths
import Dcpu16.Proofs.Instruction.Inverse

/-!
# Cycles in integer types

The machine charges a cost as a word, and a cost that is none ends the program. Only a test that fails has such a cost,
if it skips nearly all of memory: the count of what it skips still fits into a word, but the cost of the test itself is
added to it (`Machine.cycle_in_types`, `Machine.cost_leaves_word`). Every other number of a cycle stays in the type that
is meant for it. This is said with the numbers put into their types on the way (`Machine.cycleIn`), which changes
nothing for a machine in range.
-/

namespace Dcpu16

open Width

/-! ## Skips -/

namespace Core

/-- If an instruction at PC is a test that fails, its skip comes to an end. -/
def SkipEnds (s : Core) (i : Instruction) : Prop :=
  s.fails i → ∃ k, (s.resolved i).mem.FirstPlain (s.resolved i).regs.pc k

/-- A test that fails does not come back to itself in its skip, so it skips less than all of memory. -/
theorem skipped_lt {s : Core} {i : Instruction} (decoded : Instruction.decode s.fetch = .ok i) (fails : s.fails i)
    (ends : s.SkipEnds i) : (s.resolved i).skip.2 < 2 ^ 16 := by
  obtain ⟨k, first⟩ := ends fails
  have behind : (s.resolved i).regs.pc = s.mem.behind s.regs.pc := by
    rw [pc_resolved, Instruction.size_of_decode decoded]
    rfl
  have test : (s.mem.read s.regs.pc).isConditional :=
    (Instruction.isConditional_of_decode decoded).mpr (test_of_fails fails)
  have around : s.mem.FirstPlain s.regs.pc (k + 1) := by
    rw [mem_resolved, behind] at first
    exact Memory.firstPlain_succ.mpr ⟨test, first⟩
  rw [skip_of_firstPlain first]
  exact around.lt_count

/-! ## Instructions -/

/-- Running a basic operation on its destination and value, with the numbers of its effect in their types. -/
def applyBasicIn (s : Core) (op : BasicOp) (dest : Location) (value : Word) : Checked (Core × Nat) := do
  match ← op.effectIn (s.load dest) value s.regs.ex with
  | .test false => return s.skip
  | effect => return (s.perform dest effect, 0)

/-- Running a basic operation, with the numbers of its effect in their types. -/
def basicIn (s : Core) (op : BasicOp) (b a : Operand) : Checked (Core × Nat) :=
  let (src, regs) := s.resolve a
  let s := { s with regs }
  let value := s.load src
  let (dest, regs) := s.resolve b
  { s with regs }.applyBasicIn op dest value

theorem applyBasicIn_eq (s : Core) (op : BasicOp) (dest : Location) (value : Word) :
    s.applyBasicIn op dest value = some (s.applyBasic op dest value) := by
  simp only [applyBasicIn, op.effectIn_eq, bind, Option.bind_some, applyBasic]
  cases op.effect (s.load dest) value s.regs.ex with
  | test holds => cases holds <;> rfl
  | store | storeEx | storeStep => rfl

theorem basicIn_eq (s : Core) (op : BasicOp) (b a : Operand) : s.basicIn op b a = some (s.basic op b a) :=
  applyBasicIn_eq ..

end Core

namespace Machine

/-- Letting a device handle an interrupt, with the arithmetic in its types; nothing changes without a device. -/
def interruptDeviceIn (m : Machine Device) (index : Nat) : Checked (Machine Device) :=
  match m.devices[index]? with
  | none => return m
  | some d => do
    let (d, s) ← d.interruptIn m.toCore
    return { m with toCore := s, devices := m.devices.set index d }

/-- Running a special operation on a resolved operand. -/
def applySpecialIn (m : Machine Device) (op : SpecialOp) (place : Location) : Checked (Machine Device) :=
  match op with
  | .hwi => m.interruptDeviceIn (m.toCore.load place).toNat
  | op => return m.applySpecial op place

/-- Running a special operation; only devices have arithmetic. -/
def specialIn (m : Machine Device) (op : SpecialOp) (a : Operand) : Checked (Machine Device) :=
  let (place, regs) := m.toCore.resolve a
  { m with regs }.applySpecialIn op place

/-- Running an instruction, with the numbers of its effect and of devices in their types. What it costs is charged. -/
def executeIn (m : Machine Device) (i : Instruction) : Checked (Machine Device) :=
  match i with
  | .basic op b a => do
    let (s, skipped) ← m.toCore.basicIn op b a
    return { m with toCore := s }.charge (i.cycles + i.extraWords + skipped)
  | .special op a => do
    let m ← m.specialIn op a
    return m.charge (i.cycles + i.extraWords)

/-- Executing the instruction at PC, with the numbers in their types. -/
def stepIn (m : Machine Device) : Checked (Machine Device × Except DecodeError Instruction) :=
  let w := m.toCore.fetch
  match Instruction.decode w with
  | .ok i => do
    let m ← ({ m with regs := m.regs.advance 1 }).executeIn i
    return (m, .ok i)
  | .error e => return ({ m with regs := m.regs.advance (UInt16.ofNat w.instructionLength) }, .error e)

/-! ## Cycles -/

/-- Paying for the instruction in flight, or executing the next one and delivering. -/
def advanceIn (m : Machine Device) : Checked (Machine Device × Except Fault (Option Instruction)) :=
  if 0 < m.sleep then do
    let sleep ← difference m.sleep 1
    return ({ m with sleep }, .ok none)
  else do
    let (m, executed) ← m.stepIn
    return (if m.isRunning then m.deliver else m,
      match executed with
      | .ok i => .ok (some i)
      | .error e => .error (.decode e))

/-- Giving every device a cycle, with its counts in their types. -/
def cycleAllIn : List Device → InterruptQueue → Checked (List Device × InterruptQueue × Status)
  | [], q => return ([], q, .running)
  | d :: ds, q => do
    match ← d.cycleIn with
    | (d, none) =>
      let (ds, rest) ← cycleAllIn ds q
      return (d :: ds, rest)
    | (d, some msg) =>
      match q.push msg with
      | .ok q =>
        let (ds, rest) ← cycleAllIn ds q
        return (d :: ds, rest)
      | .error e => return (d :: ds, q, .onFire e.refused)

/-- Giving every device a cycle, if the machine runs. -/
def cycleDevicesIn (m : Machine Device) : Checked (Machine Device) :=
  if m.isRunning then do
    let (devices, interrupts, status) ← cycleAllIn m.devices m.interrupts
    return { m with devices, interrupts, status }
  else return m

/-- **One cycle of the machine, with the numbers in their types**; nothing if one leaves its type. What an instruction
costs is left to the machine, which charges it as a word. -/
def cycleIn (m : Machine Device) : Checked (Machine Device × Except Fault (Option Instruction)) :=
  match m.status with
  | .running => do
    let cycles ← unsigned 64 (m.cycles + 1)
    let (m, outcome) ← { m with cycles }.advanceIn
    let m ← m.cycleDevicesIn
    return (m, match m.checkRunning with | .ok () => outcome | .error e => .error e)
  | _ => return m.cycle

section
variable {m : Machine Device}

theorem interruptDeviceIn_eq (h : ∀ d ∈ m.devices, d.InRange) (index : Nat) :
    m.interruptDeviceIn index = some ((m.interruptDevice? index).getD m) := by
  unfold interruptDeviceIn interruptDevice?
  split
  · next missing =>
    rw [missing]
    rfl
  · next d attached =>
    rw [attached, Device.interruptIn_eq (h d (List.mem_of_getElem? attached))]
    rfl

theorem specialIn_eq (h : ∀ d ∈ m.devices, d.InRange) (op : SpecialOp) (a : Operand) :
    m.specialIn op a = some (m.special op a) := by
  cases op with
  | hwi => exact interruptDeviceIn_eq (m := { m with regs := (m.toCore.resolve a).2 }) h _
  | _ => rfl

theorem executeIn_eq (h : ∀ d ∈ m.devices, d.InRange) (i : Instruction) : m.executeIn i = some (m.execute i) := by
  cases i with
  | basic op b a =>
    simp only [executeIn, Core.basicIn_eq, bind, Option.bind_some]
    rfl
  | special op a =>
    simp only [executeIn, specialIn_eq h, bind, Option.bind_some]
    rfl

theorem stepIn_eq (h : ∀ d ∈ m.devices, d.InRange) : m.stepIn = some m.step := by
  cases decoded : Instruction.decode m.toCore.fetch with
  | error e =>
    simp only [stepIn, step, decoded]
    rfl
  | ok i =>
    have executed := executeIn_eq (m := { m with regs := m.regs.advance 1 }) h i
    simp only [stepIn, step, decoded, executed, bind, Option.bind_some]
    rfl

theorem advanceIn_eq (h : ∀ d ∈ m.devices, d.InRange) : m.advanceIn = some m.advance := by
  unfold advanceIn advance
  split
  · next asleep =>
    rw [difference_eq asleep]
    rfl
  · simp only [stepIn_eq h, bind, Option.bind_some]
    rfl

theorem cycleAllIn_eq {ds : List Device} (h : ∀ d ∈ ds, d.InRange) (q : InterruptQueue) :
    cycleAllIn ds q = some (cycleAll ds q) := by
  induction ds generalizing q with
  | nil => rfl
  | cons d ds ih =>
    have rest (q : InterruptQueue) := ih (fun d hd => h d (List.mem_cons_of_mem _ hd)) q
    simp only [cycleAllIn, cycleAll, Device.cycleIn_eq (h d List.mem_cons_self), rest, bind, Option.bind_some]
    rcases Peripheral.cycle d with ⟨d, _ | msg⟩
    · rfl
    · dsimp only
      cases q.push msg <;> rfl

theorem cycleDevicesIn_eq (h : ∀ d ∈ m.devices, d.InRange) :
    m.cycleDevicesIn = some (if m.isRunning then m.cycleDevices else m) := by
  unfold cycleDevicesIn
  split
  · rw [cycleAllIn_eq h]
    rfl
  · rfl

/-- A cycle that can be counted stays in the types. -/
theorem cycleIn_eq (h : ∀ d ∈ m.devices, d.InRange) (young : m.cycles + 1 < 2 ^ 64) : m.cycleIn = some m.cycle := by
  have counted : unsigned 64 (m.cycles + 1) = some (m.cycles + 1) := unsigned_eq young
  have advanced := advanceIn_eq (m := { m with cycles := m.cycles + 1 }) h
  unfold cycleIn cycle
  split
  · next running =>
    have behind : Machine.cycleDevicesIn (advance { m with cycles := m.cycles + 1 }).1 = _ :=
      cycleDevicesIn_eq (forall_advanced Device.kept_inRange running h)
    simp only [counted, advanced, behind, bind, Option.bind_some]
    rw [running]
    rfl
  · rfl

/-! ## Runs -/

/-- Every number of the machine is in its range. -/
structure InRange (m : Machine Device) : Prop where
  sleep : m.sleep < 2 ^ 16
  devices : ∀ d ∈ m.devices, d.InRange

/-- **The states that a machine comes to.** Registers and memory may be set from outside, devices are attached and sent
interrupts, and disks go in and out of drives. -/
inductive Reachable : Machine Device → Prop
  | new : Reachable {}
  | attach {m : Machine Device} {d : Device} (before : Reachable m) (fresh : d.IsNew) : Reachable (m.attach d)
  | set {m : Machine Device} (before : Reachable m) (s : Core) : Reachable { m with toCore := s }
  | cycle {m : Machine Device} (before : Reachable m) : Reachable m.cycle.1
  | interrupt {m : Machine Device} (before : Reachable m) (msg : Word) : Reachable (m.interrupt msg).1
  | interruptDevice {m : Machine Device} (before : Reachable m) (index : Nat) : Reachable (m.interruptDevice index).1
  | insert {m : Machine Device} {f : Floppy} {index : Nat} (before : Reachable m)
    (drive : m.devices[index]? = some (.floppy f)) (d : Disk) :
    Reachable { m with devices := m.devices.set index (.floppy (f.insert d).1) }
  | eject {m : Machine Device} {f : Floppy} {index : Nat} (before : Reachable m)
    (drive : m.devices[index]? = some (.floppy f)) :
    Reachable { m with devices := m.devices.set index (.floppy f.eject.1) }
  | reset {m : Machine Device} (before : Reachable m) : Reachable m.reset

theorem sleep_charge_lt (h : m.sleep < 2 ^ 16) (cost : Nat) : (m.charge cost).sleep < 2 ^ 16 := by
  rcases Nat.lt_or_ge cost 0x10000 with fits | leaves
  · rw [charge_of_fits fits]
    exact Nat.lt_of_le_of_lt (Nat.sub_le ..) fits
  · rwa [charge_of_leaves leaves]

theorem sleep_cycle_lt (h : m.sleep < 2 ^ 16) : m.cycle.1.sleep < 2 ^ 16 := by
  by_cases running : m.status = .running
  · rcases Nat.eq_zero_or_pos m.sleep with awake | asleep
    · rw [(counters_cycle running).2, sleep_advanced_of_awake awake]
      cases decoded : Instruction.decode m.toCore.fetch with
      | error e => rwa [executed_of_error decoded]
      | ok i =>
        cases i with
        | basic op b a =>
          rw [executed_of_basic decoded]
          exact sleep_charge_lt (m := { m with toCore := (m.toCore.past.basic op b a).1, cycles := m.cycles + 1 }) h _
        | special op a =>
          have cost := (Instruction.special op a).charge_le
          rw [executed_of_ok decoded, execute_special]
          exact Nat.lt_of_le_of_lt (Nat.le_trans (Nat.sub_le ..) cost) (by decide)
    · rw [sleep_cycle_of_asleep running asleep]
      exact Nat.lt_of_le_of_lt (Nat.sub_le ..) h
  · rwa [cycle_of_stopped m running]

theorem InRange.set_device (h : m.InRange) {d : Device} (inRange : d.InRange) (index : Nat) (s : Core) :
    ({ m with toCore := s, devices := m.devices.set index d } : Machine Device).InRange where
  sleep := h.sleep
  devices := by
    intro e he
    rcases List.mem_or_eq_of_mem_set he with other | rfl
    · exact h.devices e other
    · exact inRange

theorem InRange.interrupt (h : m.InRange) (msg : Word) : (m.interrupt msg).1.InRange := by
  unfold Machine.interrupt
  split
  · exact h
  · show (m.raise msg).InRange
    unfold raise
    split <;> exact ⟨h.sleep, h.devices⟩

theorem InRange.interruptDevice (h : m.InRange) (index : Nat) : (m.interruptDevice index).1.InRange := by
  unfold Machine.interruptDevice
  split
  · exact h
  · split
    · next m' sent =>
      obtain ⟨d, attached, rfl⟩ := Option.map_eq_some_iff.mp sent
      exact h.set_device (Device.kept_inRange.interrupt (h.devices d (List.mem_of_getElem? attached)) m.toCore) index _
    · exact h

/-- Every state that a machine comes to is in range. -/
theorem Reachable.inRange (h : Reachable m) : m.InRange := by
  induction h with
  | new => exact ⟨by decide, by simp⟩
  | attach _ fresh ih =>
    refine ⟨ih.sleep, fun d hd => ?_⟩
    rcases List.mem_append.mp hd with there | new
    · exact ih.devices d there
    · rw [List.mem_singleton.mp new]
      exact Device.inRange_of_isNew fresh
  | set _ s ih => exact ⟨ih.sleep, ih.devices⟩
  | cycle _ ih => exact ⟨sleep_cycle_lt ih.sleep, forall_cycle Device.kept_inRange ih.devices⟩
  | interrupt _ msg ih => exact ih.interrupt msg
  | interruptDevice _ index ih => exact ih.interruptDevice index
  | @insert m f index _ drive d ih =>
    have track : (Device.floppy (f.insert d).1).InRange := ih.devices (.floppy f) (List.mem_of_getElem? drive)
    exact ih.set_device track index m.toCore
  | @eject m f index _ drive ih =>
    have track : (Device.floppy f.eject.1).InRange := ih.devices (.floppy f) (List.mem_of_getElem? drive)
    exact ih.set_device track index m.toCore
  | reset _ ih => exact ⟨Nat.two_pow_pos 16, ih.devices⟩

end

/-! ## The limits of a cost -/

/-- If the next cycle executes a test that fails, its skip comes to an end. -/
def SkipEnds (m : Machine Device) : Prop :=
  m.Fetches → ∀ i, Instruction.decode m.toCore.fetch = .ok i → m.toCore.SkipEnds i

/-- **What a cycle computes in the types.** -/
structure StaysInTypes (m : Machine Device) : Prop where
  /-- Before the cycle every count is in its range: those of the devices, and what is left to pay. -/
  range : m.InRange
  /-- Apart from a cost no number of the cycle leaves its type. -/
  cycle : m.cycleIn = some m.cycle
  /-- A cost leaves its type if it is no word, and that ends the program. -/
  overflow (goesOn : m.status ≠ .overflowed) : m.cycle.1.status = .overflowed ↔ m.Fetches ∧ 2 ^ 16 ≤ m.cost
  /-- The cost is at least one cycle, and the rest of it is what is left to pay. -/
  sleep (fetches : m.Fetches) : 0 < m.cost ∧ (m.cost < 2 ^ 16 → m.cycle.1.sleep = m.cost - 1)
  /-- The count of what a test skips always fits. -/
  skipped {i : Instruction} (fetches : m.Fetches) (decoded : Instruction.decode m.toCore.fetch = .ok i)
    (fails : m.toCore.fails i) :
    (m.toCore.resolved i).skip.2 < 2 ^ 16 ∧ m.cost = 2 + i.extraWords + (m.toCore.resolved i).skip.2
  /-- Everything but a test that fails has a cost that fits. -/
  other (test : ∀ i, Instruction.decode m.toCore.fetch = .ok i → m.toCore.fails i = false) : m.cost < 2 ^ 16
  /-- The places of the vertices that a display shows are in their types. -/
  vertices {d : Display} (attached : .display d ∈ m.devices) : d.verticesIn m.mem = some (d.vertices m.mem)

/-- A machine is ended by a cost that is no word, and only so. -/
theorem overflows_iff {m : Machine Device} (goesOn : m.status ≠ .overflowed) :
    m.cycle.1.status = .overflowed ↔ m.Fetches ∧ 2 ^ 16 ≤ m.cost := by
  by_cases running : m.status = .running
  · rcases Nat.eq_zero_or_pos m.sleep with awake | asleep
    · have fetches : m.Fetches := ⟨running, awake⟩
      exact (status_cycle_iff fetches).trans (and_iff_right fetches).symm
    · refine iff_of_false ?_ fun both => Nat.ne_of_gt asleep both.1.2
      rcases (pays running asleep).outcome with ⟨-, runs⟩ | ⟨msg, -, -, burns⟩
      · rw [runs]
        nofun
      · rw [burns]
        nofun
  · rw [cycle_of_stopped m running]
    exact iff_of_false goesOn fun both => running both.1.1

/-- **Only the cost of a test that skips nearly all of memory leaves its type**, in whatever state a machine gets into,
as long as its cycles can be counted and its skips end: nothing else that a cycle computes does. -/
theorem cycle_in_types {m : Machine Device} (reachable : Reachable m) (young : m.cycles + 1 < 2 ^ 64)
    (ends : m.SkipEnds) : m.StaysInTypes where
  range := reachable.inRange
  cycle := cycleIn_eq reachable.inRange.devices young
  overflow := overflows_iff
  sleep fetches := ⟨cost_pos m, fun fits => Nat.eq_sub_of_add_eq (sleep_cycle fetches fits)⟩
  skipped {i} fetches decoded fails := by
    refine ⟨Core.skipped_lt decoded fails (ends fetches i decoded), ?_⟩
    simp only [Machine.cost, decoded, if_pos fails, Core.cycles_of_fails fails]
  other test := by
    unfold Machine.cost
    split
    · next i decoded =>
      rw [test i decoded, if_neg Bool.false_ne_true]
      exact Nat.lt_of_le_of_lt i.charge_le (by decide)
    · decide
  vertices attached := Display.verticesIn_eq (reachable.inRange.devices _ attached) m.mem

/-- A machine with a clock and with a test that fails, in front of another test and an assignment. -/
def timing : Machine Device :=
  { ({} : Machine Device).attach (.clock {}) with
    toCore := { mem := Memory.blank.writeFrom 0 [0x8413, 0x7c32, 0x1234, 0x8401] } }

/-- Its first cycle stays in the types, and leaves three of four cycles to pay. -/
theorem cycle_in_types_of_timing :
    Reachable timing ∧ timing.SkipEnds ∧ timing.cycleIn = some timing.cycle ∧
      timing.cycle.1.status ≠ .overflowed ∧ timing.cycle.1.sleep = 3 := by
  have reachable : Reachable timing := .set (.attach (d := .clock {}) .new rfl) _
  have fetches : timing.Fetches := ⟨rfl, rfl⟩
  have test : Instruction.decode timing.toCore.fetch = .ok (.basic .ifn (.register .a) (.literal 0)) := by
    decide +kernel
  have first : (timing.toCore.resolved (.basic .ifn (.register .a) (.literal 0))).mem.FirstPlain
      (timing.toCore.resolved (.basic .ifn (.register .a) (.literal 0))).regs.pc 1 := by decide +kernel
  have ends : timing.SkipEnds := by
    intro _ i decoded _
    cases test.symm.trans decoded
    exact ⟨1, first⟩
  have stays := cycle_in_types reachable (by decide) ends
  have cost := (stays.skipped fetches test (by decide +kernel)).2
  rw [Core.skip_of_firstPlain first] at cost
  refine ⟨reachable, ends, stays.cycle, fun overflows => ?_, ?_⟩
  · have high := ((stays.overflow (by decide)).mp overflows).2
    rw [cost] at high
    exact absurd high (by decide)
  · rw [(stays.sleep fetches).2 (by rw [cost]; decide), cost]
    rfl

/-! ### Memory full of tests -/

/-- Memory full of tests that fail, but for an assignment at its end but one. -/
def crowded : Memory := (⟨Vector.replicate 0x10000 0x0013⟩ : Memory).write 0xfffe 0x0001

theorem read_crowded (p : Word) : crowded.read p = if p = 0xfffe then 0x0001 else 0x0013 := by
  have tests : (⟨Vector.replicate 0x10000 0x0013⟩ : Memory).read p = 0x0013 := by simp [Memory.read]
  rw [crowded, Memory.read_write, tests]
  simp only [eq_comm]

theorem read_crowded_of_lt {k : Nat} (hk : k < 0xfffe) : crowded.read (UInt16.ofNat k) = 0x0013 := by
  have test : UInt16.ofNat k ≠ 0xfffe := by
    intro last
    have := (Memory.ofNat_eq_iff (q := 0xfffe) (by omega) (by decide)).mp last
    omega
  rw [read_crowded, if_neg test]

theorem stop_crowded {k : Nat} (hk : k < 0xfffe) : crowded.stop 1 k = UInt16.ofNat (k + 1) := by
  induction k with
  | zero => rfl
  | succ k ih =>
    rw [Memory.stop, ih (by omega), Memory.behind, read_crowded_of_lt hk]
    exact Memory.ofNat_succ (k + 1)

theorem firstPlain_crowded : crowded.FirstPlain 1 0xfffd := by
  constructor
  · intro k hk
    rw [stop_crowded (by omega), read_crowded_of_lt (by omega)]
    rfl
  · rw [stop_crowded (by omega), read_crowded, if_pos (by decide)]
    rfl

/-- The first test in memory that is full of them skips all others and the assignment. -/
theorem crowded_cost {m : Machine Device} (mem : m.mem = crowded) (start : m.regs.pc = 0) :
    m.SkipEnds ∧ m.cost = 0x10000 := by
  let test : Instruction := .basic .ifn (.register .a) (.register .a)
  have fetch : m.toCore.fetch = 0x0013 := by
    rw [Core.fetch, mem, start, read_crowded, if_neg (by decide)]
  have decoded : Instruction.decode m.toCore.fetch = .ok test := by
    rw [fetch]
    rfl
  have fails : m.toCore.fails test := by
    show decide (Effect.test (decide (m.regs.a ≠ m.regs.a)) = .test false) = true
    simp
  have first : (m.toCore.resolved test).mem.FirstPlain (m.toCore.resolved test).regs.pc 0xfffd := by
    have behind : (m.toCore.resolved test).regs.pc = 1 := by
      rw [Core.pc_resolved, start]
      rfl
    rw [Core.mem_resolved, behind, mem]
    exact firstPlain_crowded
  constructor
  · intro _ i same _
    cases decoded.symm.trans same
    exact ⟨_, first⟩
  · have charge : test.cycles + test.extraWords = 2 := rfl
    simp only [Machine.cost, decoded, if_pos fails, Core.skip_of_firstPlain first, charge]

/-- **The cost of a test can leave its type.** In memory that is full of tests a test skips 65534 instructions, and
costs two cycles more than that. -/
theorem cost_leaves_word : ¬ ∀ m : Machine Device, Reachable m → m.cycles + 1 < 2 ^ 64 → m.SkipEnds → m.Fetches →
    m.cost < 2 ^ 16 ∧ m.cycle.1.status ≠ .overflowed := by
  intro claim
  obtain ⟨ends, cost⟩ := crowded_cost (m := { mem := crowded }) rfl rfl
  have fits := (claim { mem := crowded } (.set .new _) (by decide) ends ⟨rfl, rfl⟩).1
  rw [cost] at fits
  exact absurd fits (Nat.lt_irrefl _)

end Machine

end Dcpu16
