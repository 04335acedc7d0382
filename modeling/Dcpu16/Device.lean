import Dcpu16.Device.Clock
import Dcpu16.Device.Display
import Dcpu16.Device.Floppy

/-!
# Devices

What a machine asks of the devices attached to it, and the devices that there are. A device sees the registers
and the memory only while it handles an interrupt; apart from that it is told of every cycle, and may answer
with an interrupt message.
-/

namespace Dcpu16

/-- A type whose values can be attached to a machine as devices. -/
class Peripheral (δ : Type) where
  /-- Who the device is. -/
  identity : δ → Identity
  /-- Handles an interrupt that the machine sends. -/
  interrupt : δ → Core → δ × Core
  /-- One cycle: the device after it, and the message it raises. -/
  cycle : δ → δ × Option Word
  /-- The device as a record. -/
  text : δ → String

/-- One of the devices that there are. -/
inductive Device
  | clock (c : Clock)
  | floppy (f : Floppy)
  | display (d : Display)
  deriving Inhabited

namespace Device

/-- Who an attached device is. -/
def identity : Device → Identity
  | .clock _ => Clock.identity
  | .floppy _ => Floppy.identity
  | .display _ => Display.identity

/-- Handles an interrupt that the machine sends. -/
def interrupt (dev : Device) (s : Core) : Device × Core :=
  match dev with
  | .clock c => let (c, regs) := c.interrupt s.regs; (.clock c, { s with regs })
  | .floppy f => let (f, s) := f.interrupt s; (.floppy f, s)
  | .display d => let (d, regs) := d.interrupt s.regs; (.display d, { s with regs })

/-- One cycle: the device after it, and the message it raises. -/
def cycle : Device → Device × Option Word
  | .clock c => let (c, raised) := c.cycle; (.clock c, raised)
  | .floppy f => let (f, raised) := f.cycle; (.floppy f, raised)
  | .display d => (.display d.cycle, none)

/-- A device as a record. -/
def text : Device → String
  | .clock c => c.text
  | .floppy f => f.text
  | .display d => d.text

instance : Peripheral Device := ⟨identity, interrupt, cycle, text⟩

end Device

end Dcpu16
