import Dcpu16.Proofs.Cycle.Accounting
import Dcpu16.Proofs.Device.Clock

/-!
# Devices keep time with the machine

In every cycle each device has a cycle of its own, in the order of attachment, when the instruction has been executed
and the delivery made. What is executed does not count, and neither does a reserved word or a pause; only HWI reaches a
device besides, with a command. So a device that is given no command does the same whatever program runs, and a clock
ticks once in every period of the machine (`devices_keep_time`).
-/

namespace Dcpu16.Machine

variable {δ : Type}

/-- The registers and the memory that the device at an index is given in the next cycle, if an HWI to it is executed. -/
def command? (m : Machine δ) (index : Nat) : Option Core :=
  if m.Fetches then
    match Instruction.decode m.toCore.fetch with
    | .ok (.special .hwi o) => if (m.toCore.past.value o).toNat = index then some (m.toCore.past.after o) else none
    | _ => none
  else none

variable [Peripheral δ]

/-- Each of the next `n` cycles returns what it executed, that it paid, or a reserved word: none of them burns the
machine or ends the program. -/
def Unburnt (m : Machine δ) (n : Nat) : Prop := ∀ k < n, (m.afterCycles k).cycle.2 matches .ok _ | .error (.decode _)

instance (m : Machine δ) (n : Nat) : Decidable (m.Unburnt n) := inferInstanceAs (Decidable (∀ _ < _, _))

/-- The device behind a command, if it is given one. -/
def commanded (command : Option Core) (d : δ) : δ :=
  match command with
  | none => d
  | some s => (Peripheral.interrupt d s).1

/-- What becomes of the device at an index in the next cycle: a command, if it is given one, and then one cycle. -/
def turn (m : Machine δ) (index : Nat) (d : δ) : δ := (Peripheral.cycle (commanded (m.command? index) d)).1

/-- What becomes of the device at an index in the next `n` cycles: `n` turns. -/
def turns (m : Machine δ) (index : Nat) : (n : Nat) → δ → δ
  | 0, d => d
  | n + 1, d => m.cycle.1.turns index n (m.turn index d)

/-- The message that the device at an index raises in the next cycle. -/
def raises? (m : Machine δ) (index : Nat) : Option Word :=
  m.advanced.devices[index]?.bind fun d => (Peripheral.cycle d).2

/-- A count of the cycles that a device has had: a cycle adds one to it, and a command leaves it. -/
structure CountsCycles (count : δ → Nat) : Prop where
  cycle (d : δ) : count (Peripheral.cycle d).1 = count d + 1
  command (d : δ) (s : Core) : count (Peripheral.interrupt d s).1 = count d

/-- The device at an index, and that it is given no command in `n` cycles that do not burn the machine. -/
structure LeftAlone (m : Machine δ) (index n : Nat) (d : δ) : Prop where
  attached : m.devices[index]? = some d
  unburnt : m.Unburnt n
  uncommanded : ∀ k < n, (m.afterCycles k).command? index = none

/-- In the course of `n` cycles the device at an index has the same states in two machines, and raises the same. -/
structure Alike (m other : Machine δ) (index n : Nat) : Prop where
  states : ∀ k ≤ n, (other.afterCycles k).devices[index]? = (m.afterCycles k).devices[index]?
  raised : ∀ k < n, (other.afterCycles k).raises? index = (m.afterCycles k).raises? index

/-- **What the devices do in a cycle.** -/
structure DevicesTurn (m : Machine δ) : Prop where
  /-- Execution and delivery come first, and reach a device with a command only. -/
  commands (index : Nat) : m.advanced.devices[index]? = m.devices[index]?.map (commanded (m.command? index))
  /-- Then each device has its cycle. -/
  cycles : m.cycle.1.devices = m.advanced.devices.map fun d => (Peripheral.cycle d).1
  core : m.cycle.1.toCore = m.advanced.toCore
  /-- What they raise waits in the order of their attachment. -/
  raised : m.cycle.1.interrupts.pending =
    m.advanced.interrupts.pending ++ m.advanced.devices.filterMap fun d => (Peripheral.cycle d).2

/-! ## Commands -/

section
variable {m : Machine δ} {index n : Nat} {d : δ}

omit [Peripheral δ] in
theorem devices_raise (msg : Word) : (m.raise msg).devices = m.devices := by
  unfold raise
  split <;> rfl

omit [Peripheral δ] in
theorem devices_deliver : m.deliver.devices = m.devices := by
  unfold deliver
  split
  · rfl
  · split <;> rfl

theorem devices_special {op : SpecialOp} (h : op ≠ .hwi) (o : Operand) : (m.special op o).devices = m.devices := by
  cases op with
  | hwi => exact absurd rfl h
  | int => exact devices_raise _
  | hwq => simp only [special, applySpecial]; split <;> rfl
  | jsr | iag | ias | rfi | iaq | hwn => rfl

@[simp] theorem map_commanded_none (d? : Option δ) : d?.map (commanded none) = d? := congrFun Option.map_id d?

theorem devices_getD_interruptDevice? (asked : Nat) : ((m.interruptDevice? asked).getD m).devices[index]? =
    m.devices[index]?.map (commanded (if asked = index then some m.toCore else none)) := by
  unfold interruptDevice?
  by_cases same : asked = index
  · subst same
    cases here : m.devices[asked]? with
    | none => simp [here]
    | some d =>
      obtain ⟨inside, -⟩ := List.getElem?_eq_some_iff.mp here
      simp [commanded, inside]
  · cases m.devices[asked]? <;> simp [same]

/-- Executing an instruction reaches a device with a command only. -/
theorem devices_executed (h : m.Fetches) :
    m.executed.devices[index]? = m.devices[index]?.map (commanded (m.command? index)) := by
  rw [command?, if_pos h]
  cases decoded : Instruction.decode m.toCore.fetch with
  | error e => rw [executed_of_error decoded, map_commanded_none]
  | ok i =>
    rw [executed_of_ok decoded]
    cases i with
    | basic op b a => exact (congrArg (·[index]?) devices_charge).trans (map_commanded_none _).symm
    | special op o =>
      rw [execute_special]
      cases op with
      | hwi => exact devices_getD_interruptDevice? (m.toCore.past.value o).toNat
      | jsr | int | iag | ias | rfi | iaq | hwn | hwq =>
        rw [map_commanded_none]
        exact congrArg (·[index]?) (devices_special (by decide) o)

theorem devices_advanced (h : m.status = .running) :
    m.advanced.devices[index]? = m.devices[index]?.map (commanded (m.command? index)) := by
  rcases Nat.eq_zero_or_pos m.sleep with awake | asleep
  · rw [← devices_executed ⟨h, awake⟩, advanced_of_awake m awake]
    split
    · rw [devices_deliver]
    · rfl
  · have pause : ¬ m.Fetches := fun fetches => Nat.ne_of_gt asleep fetches.2
    rw [command?, if_neg pause, map_commanded_none, advanced_of_sleep m asleep]

/-! ## Cycles -/

/-- Unless one of them is refused, the devices have a cycle each, and their messages are put behind those that wait. -/
theorem cycleAll_of_running {ds : List δ} {q : InterruptQueue} (h : (cycleAll ds q).2.2 = .running) :
    (cycleAll ds q).1 = ds.map (fun d => (Peripheral.cycle d).1) ∧
      (cycleAll ds q).2.1.pending = q.pending ++ ds.filterMap fun d => (Peripheral.cycle d).2 := by
  induction ds generalizing q with
  | nil => exact ⟨rfl, (List.append_nil _).symm⟩
  | cons d ds ih =>
    rw [List.map_cons, List.filterMap_cons]
    unfold cycleAll at h ⊢
    split at h
    · next quiet =>
      obtain ⟨devices, pending⟩ := ih h
      simp only [quiet, devices, pending, and_self]
    · next msg loud =>
      split at h
      · next room =>
        obtain ⟨devices, pending⟩ := ih h
        simp only [loud, devices, pending, (InterruptQueue.pending_push room).1, List.append_assoc,
          List.singleton_append, and_self]
      · cases h

theorem devicesTurn (h : m.status = .running) (runs : m.cycle.1.status = .running) : m.DevicesTurn := by
  have advances : m.advanced.isRunning := by
    by_cases burns : m.advanced.isRunning
    · exact burns
    · rw [cycle_of_running m h, if_neg burns] at runs
      exact absurd (m.advanced.isRunning_iff.mpr runs) burns
  have behind : m.cycle.1 = m.advanced.cycleDevices := by rw [cycle_of_running m h, if_pos advances]
  have status : (cycleAll m.advanced.devices m.advanced.interrupts).2.2 = .running := by rw [← runs, behind]; rfl
  obtain ⟨devices, pending⟩ := cycleAll_of_running status
  refine ⟨fun index => devices_advanced h, ?_, toCore_cycle h, ?_⟩
  · rw [behind]
    exact devices
  · rw [behind]
    exact pending

/-! ## Runs -/

theorem unburnt_cycle (h : m.Unburnt (n + 1)) : m.cycle.1.Unburnt n := fun k hk => h (k + 1) (Nat.succ_lt_succ hk)

theorem devicesTurn_of_unburnt (h : m.Unburnt n) {k : Nat} (hk : k < n) : (m.afterCycles k).DevicesTurn :=
  have runs := running_of_outcome (h k hk)
  devicesTurn runs.1 runs.2

theorem devices_cycle (h : m.DevicesTurn) : m.cycle.1.devices[index]? = m.devices[index]?.map (m.turn index) := by
  rw [h.cycles, List.getElem?_map, h.commands, Option.map_map]
  rfl

theorem devices_afterCycles (h : m.Unburnt n) :
    (m.afterCycles n).devices[index]? = m.devices[index]?.map (m.turns index n) := by
  induction n generalizing m with
  | zero => exact (congrFun Option.map_id _).symm
  | succ n ih =>
    have first : m.DevicesTurn := devicesTurn_of_unburnt h (Nat.succ_pos n)
    rw [afterCycles, ih (unburnt_cycle h), devices_cycle first, Option.map_map]
    rfl

theorem count_turns {count : δ → Nat} (h : CountsCycles count) : count (m.turns index n d) = count d + n := by
  induction n generalizing m d with
  | zero => rfl
  | succ n ih =>
    have one : count (m.turn index d) = count d + 1 := by
      rw [turn, h.cycle]
      cases m.command? index with
      | none => rfl
      | some s => rw [commanded, h.command]
    rw [turns, ih, one]
    omega

/-! ## Devices that are left alone -/

theorem leftAlone_cycle (h : m.LeftAlone index (n + 1) d) : m.cycle.1.LeftAlone index n (Peripheral.cycle d).1 where
  attached := by
    have first : m.DevicesTurn := devicesTurn_of_unburnt h.unburnt (Nat.succ_pos n)
    have none_given : m.command? index = none := h.uncommanded 0 (Nat.succ_pos n)
    rw [devices_cycle first, h.attached, Option.map_some, turn, none_given]
    rfl
  unburnt := unburnt_cycle h.unburnt
  uncommanded k hk := h.uncommanded (k + 1) (Nat.succ_lt_succ hk)

theorem raises_of_leftAlone (h : m.LeftAlone index (n + 1) d) : m.raises? index = (Peripheral.cycle d).2 := by
  have first : m.DevicesTurn := devicesTurn_of_unburnt h.unburnt (Nat.succ_pos n)
  have none_given : m.command? index = none := h.uncommanded 0 (Nat.succ_pos n)
  rw [raises?, first.commands, h.attached, none_given]
  rfl

section
variable {clock : Clock → δ} (clocks : ∀ c, Peripheral.cycle (clock c) = (clock c.cycle.1, c.cycle.2)) {c : Clock}
include clocks

/-- A clock that is left alone does what it does on its own. -/
theorem leftAlone_afterCycles (h : m.LeftAlone index n (clock c)) {k : Nat} (hk : k ≤ n) :
    (m.afterCycles k).LeftAlone index (n - k) (clock (c.afterCycles k)) := by
  induction k generalizing m n c with
  | zero => exact h
  | succ k ih =>
    cases n with
    | zero => exact absurd hk (Nat.not_succ_le_zero k)
    | succ n =>
      have next : m.cycle.1.LeftAlone index n (clock c.cycle.1) := by
        have cycled := leftAlone_cycle h
        rwa [clocks] at cycled
      have rest := ih next (Nat.le_of_succ_le_succ hk)
      rwa [Nat.add_sub_add_right]

theorem alike_of_leftAlone {other : Machine δ} (h : m.LeftAlone index n (clock c))
    (otherwise : other.LeftAlone index n (clock c)) : m.Alike other index n where
  states := by
    intro k hk
    rw [(leftAlone_afterCycles clocks otherwise hk).attached, (leftAlone_afterCycles clocks h hk).attached]
  raised := by
    intro k hk
    have here := leftAlone_afterCycles clocks h (Nat.le_of_lt hk)
    have there := leftAlone_afterCycles clocks otherwise (Nat.le_of_lt hk)
    obtain ⟨left, hleft⟩ : ∃ left, n - k = left + 1 := ⟨n - k - 1, by omega⟩
    rw [hleft] at here there
    rw [raises_of_leftAlone here, raises_of_leftAlone there]

theorem ticked_of_leftAlone (h : m.LeftAlone index n (clock c)) (runs : c.period ≠ 0) (fresh : c.elapsed = 0)
    (unticked : c.ticks = 0) : (m.afterCycles n).devices[index]? = some (clock
      { c with elapsed := n % c.period.toNat, ticks := UInt16.ofNat (n / c.period.toNat) }) := by
  have within : c.elapsed < c.period.toNat := by
    rw [fresh]
    apply Nat.pos_of_ne_zero
    intro stopped
    exact runs (UInt16.toNat_inj.mp stopped)
  rw [(leftAlone_afterCycles clocks h (Nat.le_refl n)).attached, Clock.afterCycles_eq within]
  simp only [Clock.elapse, fresh, unticked, Nat.zero_add, UInt16.zero_add]

end

end

/-- **Devices keep time with the machine.** In cycles that do not burn it, each device has one cycle in each of them, in
the order of attachment, behind what is executed and delivered. A clock that is given no command is in the same state
and raises the same in two machines, whatever they execute, and its ticks are the periods that have gone by. -/
theorem devices_keep_time {clock : Clock → δ}
    (clocks : ∀ c, Peripheral.cycle (clock c) = (clock c.cycle.1, c.cycle.2)) {m : Machine δ} {n : Nat}
    (h : m.Unburnt n) :
    (∀ k < n, (m.afterCycles k).DevicesTurn) ∧
      (∀ index, (m.afterCycles n).devices[index]? = m.devices[index]?.map (m.turns index n) ∧
        ∀ count, CountsCycles count → ∀ d, count (m.turns index n d) = count d + n) ∧
      ∀ index c, m.LeftAlone index n (clock c) →
        (∀ other : Machine δ, other.LeftAlone index n (clock c) → m.Alike other index n) ∧
          (c.period ≠ 0 → c.elapsed = 0 → c.ticks = 0 → (m.afterCycles n).devices[index]? = some (clock
            { c with elapsed := n % c.period.toNat, ticks := UInt16.ofNat (n / c.period.toNat) })) := by
  refine ⟨?_, ?_, ?_⟩
  · intro k hk
    exact devicesTurn_of_unburnt h hk
  · intro index
    refine ⟨devices_afterCycles h, ?_⟩
    intro count counts d
    exact count_turns counts
  · intro index c alone
    refine ⟨?_, ticked_of_leftAlone clocks alone⟩
    intro other otherwise
    exact alike_of_leftAlone clocks alone otherwise

/-- A clock that ticks every second cycle, beside one that the program gives a command before it runs into reserved
words. -/
def beside : Machine Device where
  mem := Memory.blank.writeFrom 0 [0x8a40]
  devices := [.clock { period := 2, message := 7 }, .clock {}]

/-- The program commands the other clock, pauses and fails to decode, and the clock ticks three times in six cycles. -/
theorem devices_keep_time_of_beside :
    beside.Unburnt 6 ∧ beside.LeftAlone 0 6 (.clock { period := 2, message := 7 }) ∧
      (beside.command? 1).isSome ∧ (beside.afterCycles 5).cycle.2 = .error (.decode (.reservedSpecial 0)) ∧
      (beside.afterCycles 6).devices[0]? = some (.clock { period := 2, ticks := 3, message := 7 }) := by
  have unburnt : beside.Unburnt 6 := by decide +kernel
  have alone : beside.LeftAlone 0 6 (.clock { period := 2, message := 7 }) :=
    ⟨rfl, unburnt, by decide +kernel⟩
  have clocks (c : Clock) : Peripheral.cycle (Device.clock c) = (.clock c.cycle.1, c.cycle.2) := rfl
  obtain ⟨-, -, kept⟩ := devices_keep_time clocks unburnt
  exact ⟨unburnt, alone, by decide +kernel, by decide +kernel, (kept 0 _ alone).2 (by decide) rfl rfl⟩

end Dcpu16.Machine
