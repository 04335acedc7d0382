import Dcpu16.Device.Floppy
import Dcpu16.Proofs.Memory

/-!
# Floppy drives at work

What a drive makes of an interrupt, case by case (`Floppy.Response`), and what else can happen to it. A transfer needs
a disk, a sector on it and a window of memory (`Floppy.Ready`). It is carried out if it has them and refused if not; a
refusal leaves the disk and the memory alone.
-/

namespace Dcpu16

/-- What can happen to a drive. -/
inductive DriveCall
  | interrupt (s : Core)
  | insert (d : Disk)
  | eject
  | cycle

namespace Floppy

/-- The drive behind a call. -/
def perform (f : Floppy) : DriveCall → Floppy
  | .interrupt s => (f.interrupt s).1
  | .insert d => (f.insert d).1
  | .eject => f.eject.1
  | .cycle => f.cycle.1

/-- The drive behind calls. -/
def performAll (f : Floppy) (calls : List DriveCall) : Floppy := calls.foldl perform f

/-! ## Commands -/

/-- **What a transfer needs**: a disk, which is not protected if it is to be written, a sector X and memory at Y. -/
structure Ready (f : Floppy) (way : Direction) (s : Core) (d : Disk) (data : List Word) : Prop where
  disk : f.disk = some d
  writable : way = .toDisk → d.writeProtected = false
  sector : d.sector? s.regs.x.toNat = some data
  window : s.regs.y.toNat + Disk.sectorSize ≤ Word.count

/-- **What a drive makes of an interrupt**: the drive and the core behind it. -/
inductive Response (f : Floppy) (s : Core) : Floppy → Core → Prop
  | poll (command : s.regs.a = 0) :
      Response f s (f.latch none) { s with regs := { s.regs with b := f.state, c := f.errorCode } }
  | message (command : s.regs.a = 1) : Response f s { f with message := s.regs.x } s
  | read {d : Disk} {data : List Word} (command : s.regs.a = 2) (ready : f.Ready .toMemory s d data) :
      Response f s (f.seek s.regs.x.toNat) { s with regs.b := 1, mem := s.mem.writeFrom s.regs.y data }
  | write {d : Disk} {data : List Word} (command : s.regs.a = 3) (ready : f.Ready .toDisk s d data) :
      Response f s
        { f.seek s.regs.x.toNat with
          disk := some (d.writeSector s.regs.x.toNat (s.mem.block s.regs.y Disk.sectorSize)) }
        { s with regs.b := 1 }
  | refused (command : s.regs.a = 2 ∨ s.regs.a = 3) (e : TransferError) :
      Response f s (f.latch (some e)) { s with regs.b := 0 }
  | unknown (command : ∀ n ∈ [0, 1, 2, 3], s.regs.a ≠ n) : Response f s f s

section
variable {f : Floppy} {s : Core} {d : Disk} {data : List Word} {way : Direction}

theorem latch_eq (e : Option TransferError) :
    f.latch e = { f with error := e, changed := f.changed || f.error ≠ e } := by
  unfold latch
  split
  · next same => subst same; simp
  · next other => simp [other]

theorem ready_or_refused (f : Floppy) (way : Direction) (s : Core) :
    (∃ d data, f.Ready way s d data) ∨ ∃ e, f.transfer way s = .error e := by
  unfold transfer
  cases disk : f.disk with
  | none => exact .inr ⟨_, rfl⟩
  | some d =>
    by_cases tab : way = .toDisk ∧ d.writeProtected
    · exact .inr ⟨_, if_pos tab⟩
    simp only [if_neg tab]
    cases sector : d.sector? s.regs.x.toNat with
    | none => exact .inr ⟨_, rfl⟩
    | some data =>
      by_cases window : s.regs.y.toNat + Disk.sectorSize ≤ Word.count
      · exact .inl ⟨d, data, disk, fun write => by simpa [write] using tab, sector, window⟩
      · have outside : s.mem.window? s.regs.y Disk.sectorSize = none := by
          rw [Memory.window?_eq, if_neg window]
        rw [outside]
        exact .inr ⟨_, rfl⟩

theorem transfer_of_ready (h : f.Ready way s d data) :
    f.transfer way s = .ok (match way with
      | .toMemory => (f.seek s.regs.x.toNat, { s with mem := s.mem.writeFrom s.regs.y data })
      | .toDisk =>
        ({ f.seek s.regs.x.toNat with
            disk := some (d.writeSector s.regs.x.toNat (s.mem.block s.regs.y Disk.sectorSize)) }, s)) := by
  have window : s.mem.window? s.regs.y Disk.sectorSize = some (s.mem.block s.regs.y Disk.sectorSize) := by
    rw [Memory.window?_eq, if_pos h.window]
  have writable : ¬ (way = .toDisk ∧ d.writeProtected) := fun both => by
    cases (h.writable both.1).symm.trans both.2
  simp only [transfer, h.disk, if_neg writable, h.sector, window]
  cases way <;> rfl

theorem response (f : Floppy) (s : Core) : f.Response s (f.interrupt s).1 (f.interrupt s).2 := by
  unfold interrupt
  split
  · next poll => exact .poll poll
  · next message => exact .message message
  · next read =>
    rcases ready_or_refused f .toMemory s with ⟨d, data, ready⟩ | ⟨e, refusal⟩
    · rw [command, transfer_of_ready ready]
      exact .read read ready
    · rw [command, refusal]
      exact .refused (.inl read) e
  · next write =>
    rcases ready_or_refused f .toDisk s with ⟨d, data, ready⟩ | ⟨e, refusal⟩
    · rw [command, transfer_of_ready ready]
      exact .write write ready
    · rw [command, refusal]
      exact .refused (.inr write) e
  · next poll message read write => exact .unknown (by simpa using ⟨poll, message, read, write⟩)

end

end Floppy

end Dcpu16
