import Dcpu16.Proofs.Cycle.DeviceTime
import Dcpu16.Proofs.Device.Drive.Store

/-!
# A disk stays in its drive

No program takes a device out of its slot, and none changes it but by interrupts and cycles. What all of these keep is
kept by a machine that runs, also if it catches fire and some of its devices miss their cycle (`holdsAt_afterCycles`).
That there is a disk in a drive is of this kind: interrupts write to the disk, and only a hand takes it out.
-/

namespace Dcpu16

namespace Machine

variable {δ : Type} {m : Machine δ} {index : Nat} {P : δ → Prop}

/-- The device at an index has a property. -/
def HoldsAt (m : Machine δ) (index : Nat) (P : δ → Prop) : Prop := ∃ d, m.devices[index]? = some d ∧ P d

variable [Peripheral δ]

/-- **A property that devices keep**, whatever they are sent and however often they have a cycle. -/
structure Kept (P : δ → Prop) : Prop where
  interrupt {d : δ} (h : P d) (s : Core) : P (Peripheral.interrupt d s).1
  cycle {d : δ} (h : P d) : P (Peripheral.cycle d).1

/-- A device has its cycle with the others, or misses it behind one whose message is refused. -/
theorem getElem?_cycleAll (ds : List δ) (q : InterruptQueue) (index : Nat) :
    (cycleAll ds q).1[index]? = ds[index]?.map (fun d => (Peripheral.cycle d).1) ∨
      (cycleAll ds q).1[index]? = ds[index]? := by
  induction ds generalizing q index with
  | nil => exact .inr rfl
  | cons d ds ih =>
    unfold cycleAll
    cases index with
    | zero =>
      -- the first device has its cycle, whatever becomes of its message
      left
      split
      · next quiet => simp [quiet]
      · next loud => split <;> simp [loud]
    | succ index =>
      split
      · exact ih q index
      · split
        · exact ih _ index
        · exact .inr rfl

theorem Kept.commanded (kept : Kept P) {d : δ} (h : P d) (command : Option Core) : P (commanded command d) := by
  cases command with
  | none => exact h
  | some s => exact kept.interrupt h s

theorem holdsAt_advanced (kept : Kept P) (h : m.status = .running) (before : m.HoldsAt index P) :
    m.advanced.HoldsAt index P := by
  obtain ⟨d, attached, holds⟩ := before
  exact ⟨_, by rw [devices_advanced h, attached, Option.map_some], kept.commanded holds (m.command? index)⟩

theorem holdsAt_cycle (kept : Kept P) (before : m.HoldsAt index P) : m.cycle.1.HoldsAt index P := by
  by_cases h : m.status = .running
  · obtain ⟨d, attached, holds⟩ := holdsAt_advanced kept h before
    rw [cycle_of_running m h]
    split
    · rcases getElem?_cycleAll m.advanced.devices m.advanced.interrupts index with cycled | missed
      · exact ⟨(Peripheral.cycle d).1, cycled.trans (by rw [attached, Option.map_some]), kept.cycle holds⟩
      · exact ⟨d, missed.trans attached, holds⟩
    · exact ⟨d, attached, holds⟩
  · rw [cycle_of_stopped m h]
    exact before

/-- What devices keep is kept in a run. -/
theorem holdsAt_afterCycles (kept : Kept P) (before : m.HoldsAt index P) (n : Nat) :
    (m.afterCycles n).HoldsAt index P := by
  induction n generalizing m with
  | zero => exact before
  | succ n ih => exact ih (holdsAt_cycle kept before)

/-- What all devices keep, the devices of a machine keep together. -/
theorem forall_advanced (kept : Kept P) (h : m.status = .running) (before : ∀ d ∈ m.devices, P d) :
    ∀ d ∈ m.advanced.devices, P d := by
  intro d hd
  obtain ⟨index, attached⟩ := List.mem_iff_getElem?.mp hd
  rw [devices_advanced h] at attached
  obtain ⟨d, found, rfl⟩ := Option.map_eq_some_iff.mp attached
  exact kept.commanded (before d (List.mem_of_getElem? found)) (m.command? index)

theorem forall_cycleAll (kept : Kept P) {ds : List δ} (before : ∀ d ∈ ds, P d) (q : InterruptQueue) :
    ∀ d ∈ (cycleAll ds q).1, P d := by
  intro d hd
  obtain ⟨index, attached⟩ := List.mem_iff_getElem?.mp hd
  rcases getElem?_cycleAll ds q index with cycled | missed
  · rw [cycled] at attached
    obtain ⟨d, found, rfl⟩ := Option.map_eq_some_iff.mp attached
    exact kept.cycle (before d (List.mem_of_getElem? found))
  · rw [missed] at attached
    exact before d (List.mem_of_getElem? attached)

theorem forall_cycle (kept : Kept P) (before : ∀ d ∈ m.devices, P d) : ∀ d ∈ m.cycle.1.devices, P d := by
  by_cases h : m.status = .running
  · have advanced := forall_advanced kept h before
    rw [cycle_of_running m h]
    split
    · exact forall_cycleAll kept advanced _
    · exact advanced
  · rw [cycle_of_stopped m h]
    exact before

end Machine

/-! ## Disks -/

theorem Floppy.isSome_disk_interrupt {f : Floppy} (h : f.disk.isSome) (s : Core) : (f.interrupt s).1.disk.isSome := by
  by_cases accepted : DriveEvent.Accepted 3 s (f.interrupt s).2
  · obtain ⟨d, data, -, written⟩ := (f.response s).write_of_accepted accepted
    rw [written]
    rfl
  · rwa [f.moves.disk accepted]

/-- A drive with a disk in it. -/
def Device.HasDisk : Device → Prop
  | .floppy f => f.disk.isSome
  | _ => False

theorem Device.kept_hasDisk : Machine.Kept Device.HasDisk where
  interrupt {d} h s := by
    cases d with
    | floppy f => exact Floppy.isSome_disk_interrupt (f := f) h s
    | clock | display => exact h
  cycle {d} h := by
    cases d with
    | floppy | clock | display => exact h

end Dcpu16
