import Dcpu16.Core
import Dcpu16.Device.Disk
import Dcpu16.Device.Identity

/-!
# Floppy drive

A drive that copies whole sectors between its disk and memory. A command in A polls the drive (0), sets
its interrupt message (1), reads sector X to address Y (2) or writes it from there (3). A transfer happens
at once or is refused; the first reason of refusal is kept until the next poll. While the message is not
zero, a change of the disk or of the kept error raises it once, in the next cycle.
-/

namespace Dcpu16

/-- Why a transfer is refused. -/
inductive TransferError
  | noMedia | writeProtected | badSector
  deriving DecidableEq, Repr, Inhabited

namespace TransferError

/-- The number that a poll reports. -/
def code : TransferError → Word
  | noMedia => 2
  | writeProtected => 3
  | badSector => 5

/-- The name of an error. -/
def name : TransferError → String
  | noMedia => "NoMedia"
  | writeProtected => "Protected"
  | badSector => "BadSector"

end TransferError

/-- The way of a transfer. -/
inductive Direction
  | toMemory | toDisk
  deriving DecidableEq, Repr

/-- A floppy drive. -/
structure Floppy where
  disk : Option Disk := none
  /-- The error kept for the next poll. -/
  error : Option TransferError := none
  message : Word := 0
  /-- Whether the disk or the kept error changed since the last cycle. -/
  changed : Bool := false
  /-- Where the head is. -/
  track : Nat := 0
  /-- Microseconds that the head moved for the last transfer. -/
  seekTime : Nat := 0
  deriving Inhabited

namespace Floppy

/-- Who a floppy drive is. -/
def identity : Identity := ⟨0x4fd524c5, 0x000b, 0x1eb37e91, "Mackapar 3.5\" Floppy Drive (M35FD)"⟩

/-- Microseconds from a track to the next one. -/
def seekMicros : Nat := 2400

/-- The state that a poll reports: no disk, ready, or ready and protected. -/
def state (f : Floppy) : Word :=
  match f.disk with
  | none => 0
  | some d => if d.writeProtected then 2 else 1

/-- The error that a poll reports. -/
def errorCode (f : Floppy) : Word :=
  match f.error with
  | none => 0
  | some e => e.code

/-- Puts a disk into the drive; answers the one that was there. -/
def insert (f : Floppy) (d : Disk) : Floppy × Option Disk := ({ f with disk := some d, changed := true }, f.disk)

/-- Takes the disk out of the drive. -/
def eject (f : Floppy) : Floppy × Option Disk :=
  ({ f with disk := none, changed := f.changed || f.disk.isSome }, f.disk)

/-- Keeps an error, or forgets it. -/
def latch (f : Floppy) (e : Option TransferError) : Floppy :=
  if f.error = e then f else { f with error := e, changed := true }

/-- Moves the head to the track of a sector. -/
def seek (f : Floppy) (sector : Nat) : Floppy :=
  let target := sector / Disk.sectorsPerTrack
  { f with track := target, seekTime := (max f.track target - min f.track target) * seekMicros }

/-- Copies sector X to or from the memory at Y. -/
def transfer (f : Floppy) (way : Direction) (s : Core) : Except TransferError (Floppy × Core) :=
  let sector := s.regs.x.toNat
  match f.disk with
  | none => .error .noMedia
  | some d =>
    if way = .toDisk ∧ d.writeProtected then .error .writeProtected
    else
      match d.sector? sector, s.mem.window? s.regs.y Disk.sectorSize with
      | some data, some ram =>
        match way with
        | .toMemory => .ok (f.seek sector, { s with mem := s.mem.writeFrom s.regs.y data })
        | .toDisk => .ok ({ f.seek sector with disk := some (d.writeSector sector ram) }, s)
      | _, _ => .error .badSector

/-- Handles a transfer command: B tells whether it was accepted. -/
def command (f : Floppy) (way : Direction) (s : Core) : Floppy × Core :=
  match f.transfer way s with
  | .ok (f, s) => (f, { s with regs.b := 1 })
  | .error e => (f.latch (some e), { s with regs.b := 0 })

/-- Handles the command in A. -/
def interrupt (f : Floppy) (s : Core) : Floppy × Core :=
  match s.regs.a with
  | 0 => (f.latch none, { s with regs := { s.regs with b := f.state, c := f.errorCode } })
  | 1 => ({ f with message := s.regs.x }, s)
  | 2 => f.command .toMemory s
  | 3 => f.command .toDisk s
  | _ => (f, s)

/-- One cycle: the drive after it, and the message it raises. -/
def cycle (f : Floppy) : Floppy × Option Word :=
  ({ f with changed := false }, if f.changed ∧ f.message ≠ 0 then some f.message else none)

/-- The text of a value that may be absent. -/
def optionText : Option String → String
  | none => "None"
  | some t => "Some(" ++ t ++ ")"

/-- A drive as a record. -/
def text (f : Floppy) : String :=
  recordText "Floppy" [("disk", optionText (f.disk.map Disk.text)),
    ("last_error", optionText (f.error.map TransferError.name)), ("interrupt_message", toString f.message),
    ("changed", toString f.changed), ("track", toString f.track), ("last_seek_time", toString f.seekTime)]

end Floppy

end Dcpu16
