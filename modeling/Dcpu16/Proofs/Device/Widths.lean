import Dcpu16.Proofs.Arithmetic.Widths
import Dcpu16.Proofs.Device.Clock.Ticks
import Dcpu16.Proofs.Device.Drive.Inserted

/-!
# Devices in integer types

Every count of a device has a range that cycles and commands keep: the cycles of a clock stay below its period, the
angles of a display below a full turn, and the head of a drive on the tracks of a disk (`Device.kept_inRange`). In these
ranges nothing that a device computes leaves the type that is meant for it (`Device.cycleIn_eq`,
`Device.interruptIn_eq`).
-/

namespace Dcpu16

open Width

theorem mapM_eq_some {α β : Type} {f : α → Option β} {g : α → β} {xs : List α} (h : ∀ x ∈ xs, f x = some (g x)) :
    xs.mapM f = some (xs.map g) := by
  induction xs with
  | nil => rfl
  | cons x xs ih =>
    rw [List.mapM_cons, h x List.mem_cons_self, ih fun y hy => h y (List.mem_cons_of_mem x hy)]
    rfl

namespace Clock

/-- One cycle, with the count in 16 bits. -/
def cycleIn (c : Clock) : Checked (Clock × Option Word) :=
  if c.period = 0 then return (c, none)
  else do
    let elapsed ← unsigned 16 (c.elapsed + 1)
    if elapsed < c.period.toNat then return ({ c with elapsed }, none)
    else return ({ c with elapsed := 0, ticks := c.ticks + 1 }, if c.message = 0 then none else some c.message)

theorem cycleIn_eq {c : Clock} (h : c.Regular) : c.cycleIn = some c.cycle := by
  unfold cycleIn cycle
  split
  · rfl
  · rw [unsigned_eq (elapsed_succ_lt h)]
    simp only [bind, Option.bind_some]
    split <;> rfl

end Clock

namespace Display

/-- The counts of a display are in their ranges. -/
structure InRange (d : Display) : Prop where
  count : d.count ≤ maxVertices
  rotation : d.rotation < 360
  target : d.target < 360
  turned : d.turned < cyclesPerDegree

/-- One cycle, with the cycles in 32 bits and the angles in 16. -/
def cycleIn (d : Display) : Checked Display :=
  if d.rotation = d.target then return { d with turned := 0 }
  else do
    let turned ← unsigned 32 (d.turned + 1)
    if turned < cyclesPerDegree then return { d with turned }
    else
      let full ← unsigned 16 (d.target + 360)
      let ahead ← difference full d.rotation
      let rotation ← unsigned 16 (d.rotation + if ahead % 360 ≤ 180 then 1 else 359)
      return { d with turned := 0, rotation := rotation % 360 }

/-- The mapped vertices, with their places in 16 bits. -/
def verticesIn (d : Display) (mem : Memory) : Checked (List Vertex) :=
  (List.range d.count).mapM fun n => do
    let offset ← unsigned 16 (2 * n)
    let p := d.address + UInt16.ofNat offset
    return .ofWords (mem.read p) (mem.read (p + 1))

section
variable {d : Display}

theorem InRange.interrupt (h : d.InRange) (regs : Registers) : (d.interrupt regs).1.InRange := by
  unfold Display.interrupt
  split
  · exact ⟨h.count, h.rotation, h.target, h.turned⟩
  · split
    · exact ⟨h.count, h.rotation, h.target, h.turned⟩
    · next few => exact ⟨Nat.le_of_not_lt few, h.rotation, h.target, h.turned⟩
  · exact ⟨h.count, h.rotation, Nat.mod_lt _ (by decide), h.turned⟩
  · exact h

theorem InRange.cycle (h : d.InRange) : d.cycle.InRange := by
  unfold Display.cycle
  split
  · exact ⟨h.count, h.rotation, h.target, Nat.zero_lt_succ 1999⟩
  · split
    · next more => exact ⟨h.count, h.rotation, h.target, more⟩
    · refine ⟨h.count, ?_, h.target, Nat.zero_lt_succ 1999⟩
      dsimp only [nextDegree]
      split <;> exact Nat.mod_lt _ (by decide)

theorem cycleIn_eq (h : d.InRange) : d.cycleIn = some d.cycle := by
  have rotation := h.rotation
  have target := h.target
  have turned : d.turned < 2000 := h.turned
  unfold cycleIn Display.cycle
  split
  · rfl
  · rw [unsigned_eq (by omega)]
    simp only [bind, Option.bind_some]
    split
    · rfl
    · rw [unsigned_eq (by omega)]
      simp only [Option.bind_some]
      rw [difference_eq (by omega)]
      simp only [Option.bind_some, nextDegree]
      split <;> (rw [unsigned_eq (by omega)]; rfl)

theorem verticesIn_eq (h : d.InRange) (mem : Memory) : d.verticesIn mem = some (d.vertices mem) := by
  have count : d.count ≤ 128 := h.count
  apply mapM_eq_some
  intro n hn
  have := List.mem_range.mp hn
  rw [unsigned_eq (by omega)]
  rfl

end

end Display

namespace Floppy

/-- Moving the head, with the time that it takes in 32 bits. -/
def seekIn (f : Floppy) (sector : Nat) : Checked Floppy := do
  let target := sector / Disk.sectorsPerTrack
  let distance ← unsigned 32 (max f.track target - min f.track target)
  let seekTime ← unsigned 32 (distance * seekMicros)
  return { f with track := target, seekTime }

/-- A transfer, with the places on the disk in their type. -/
def transferIn (f : Floppy) (way : Direction) (s : Core) : Checked (Except TransferError (Floppy × Core)) :=
  let sector := s.regs.x.toNat
  match f.disk with
  | none => return .error .noMedia
  | some d =>
    if way = .toDisk ∧ d.writeProtected then return .error .writeProtected
    else do
      match ← d.findSector sector, s.mem.window? s.regs.y Disk.sectorSize with
      | some data, some ram => do
        let moved ← f.seekIn sector
        match way with
        | .toMemory => return .ok (moved, { s with mem := s.mem.writeFrom s.regs.y data })
        | .toDisk => return .ok ({ moved with disk := some (← d.setSector sector ram) }, s)
      | _, _ => return .error .badSector

/-- A transfer command, with the arithmetic of the transfer in its types. -/
def commandIn (f : Floppy) (way : Direction) (s : Core) : Checked (Floppy × Core) := do
  match ← f.transferIn way s with
  | .ok (f, s) => return (f, { s with regs.b := 1 })
  | .error e => return (f.latch (some e), { s with regs.b := 0 })

/-- Handling the command in A; only transfers have arithmetic. -/
def interruptIn (f : Floppy) (s : Core) : Checked (Floppy × Core) :=
  match s.regs.a with
  | 2 => f.commandIn .toMemory s
  | 3 => f.commandIn .toDisk s
  | _ => return f.interrupt s

section
variable {f : Floppy} {s : Core} {sector : Nat}

theorem seekIn_eq (h : f.track < Disk.tracks) (onDisk : sector < Disk.sectors) :
    f.seekIn sector = some (f.seek sector) := by
  have target : sector / Disk.sectorsPerTrack < 80 := Nat.div_lt_of_lt_mul onDisk
  have distance : max f.track (sector / Disk.sectorsPerTrack) - min f.track (sector / Disk.sectorsPerTrack) < 80 :=
    Nat.lt_of_le_of_lt (Nat.sub_le ..) (Nat.max_lt.mpr ⟨h, target⟩)
  simp only [seekIn, seek]
  rw [unsigned_eq (by omega)]
  simp only [bind, Option.bind_some, seekMicros]
  rw [unsigned_eq (by omega)]
  rfl

theorem transferIn_eq (h : f.track < Disk.tracks) (way : Direction) (s : Core) :
    f.transferIn way s = some (f.transfer way s) := by
  have small : s.regs.x.toNat ≠ 0x7fffffffffffff := Nat.ne_of_lt (Nat.lt_trans s.regs.x.toNat_lt (by decide))
  unfold transferIn transfer
  cases f.disk with
  | none => rfl
  | some d =>
    by_cases tab : way = .toDisk ∧ d.writeProtected
    · simp only [if_pos tab]
      rfl
    · simp only [if_neg tab]
      simp only [Disk.findSector_eq, Disk.setSector_eq, if_neg small, bind, Option.bind_some]
      cases onDisk : d.sector? s.regs.x.toNat with
      | none => rfl
      | some data =>
        cases s.mem.window? s.regs.y Disk.sectorSize with
        | none => rfl
        | some ram =>
          have exists_sector := (d.sector?_isSome_iff s.regs.x.toNat).mp (onDisk ▸ rfl)
          simp only [seekIn_eq h exists_sector, Option.bind_some]
          cases way <;> rfl

theorem interruptIn_eq (h : f.track < Disk.tracks) (s : Core) : f.interruptIn s = some (f.interrupt s) := by
  have commands (way : Direction) : f.commandIn way s = some (f.command way s) := by
    rw [commandIn, command, transferIn_eq h]
    simp only [bind, Option.bind_some]
    cases f.transfer way s <;> rfl
  unfold interruptIn
  split
  · next read =>
    rw [commands, interrupt, read]
    rfl
  · next write =>
    rw [commands, interrupt, write]
    rfl
  · rfl

theorem Response.track_lt {g : Floppy} {t : Core} (response : f.Response s g t) (h : f.track < Disk.tracks) :
    g.track < Disk.tracks := by
  cases response with
  | poll | refused =>
    rw [latch_eq]
    exact h
  | message | unknown => exact h
  | read _ ready | write _ ready =>
    exact Nat.div_lt_of_lt_mul ((Disk.sector?_isSome_iff _ _).mp (Option.isSome_of_eq_some ready.sector))

end

end Floppy

namespace Device

/-- The counts of a device are in their ranges. -/
def InRange : Device → Prop
  | .clock c => c.Regular
  | .floppy f => f.track < Disk.tracks
  | .display d => d.InRange

/-- One cycle, with its counts in their types. -/
def cycleIn : Device → Checked (Device × Option Word)
  | .clock c => do
    let (c, raised) ← c.cycleIn
    return (.clock c, raised)
  | .floppy f => return cycle (.floppy f)
  | .display d => do
    let d ← d.cycleIn
    return (.display d, none)

/-- Handling an interrupt, with the arithmetic in its types. -/
def interruptIn (dev : Device) (s : Core) : Checked (Device × Core) :=
  match dev with
  | .floppy f => do
    let (f, s) ← f.interruptIn s
    return (.floppy f, s)
  | dev => return dev.interrupt s

/-- A device as it is attached: nothing has happened to it, and a drive may have a disk in it. -/
def IsNew : Device → Prop
  | .clock c => c = {}
  | .floppy f => ∃ disk, f = { disk }
  | .display d => d = {}

variable {d : Device}

theorem inRange_of_isNew (h : d.IsNew) : d.InRange := by
  cases d with
  | clock c =>
    cases h
    exact ⟨rfl, rfl⟩
  | floppy f =>
    obtain ⟨disk, rfl⟩ := h
    exact Nat.zero_lt_succ 79
  | display d =>
    cases h
    constructor <;> decide

/-- **Cycles and commands keep the counts of devices in their ranges.** -/
theorem kept_inRange : Machine.Kept InRange where
  interrupt {d} h s := by
    cases d with
    | clock c => exact Clock.regular_perform h (.command s.regs)
    | floppy f => exact (f.response s).track_lt h
    | display d => exact Display.InRange.interrupt h s.regs
  cycle {d} h := by
    cases d with
    | clock c => exact Clock.regular_perform h .cycle
    | floppy f => exact h
    | display d => exact Display.InRange.cycle h

theorem cycleIn_eq (h : d.InRange) : d.cycleIn = some (Peripheral.cycle d) := by
  cases d with
  | clock c => rw [cycleIn, Clock.cycleIn_eq h]; rfl
  | floppy f => rfl
  | display d => rw [cycleIn, Display.cycleIn_eq h]; rfl

theorem interruptIn_eq (h : d.InRange) (s : Core) : d.interruptIn s = some (Peripheral.interrupt d s) := by
  cases d with
  | clock c => rfl
  | floppy f => rw [interruptIn, Floppy.interruptIn_eq h]; rfl
  | display d => rfl

end Device

end Dcpu16
