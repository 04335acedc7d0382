import Dcpu16.Json
import Dcpu16.Machine

/-!
# Snapshots

The state of registers, machine and display as JSON values.
-/

namespace Dcpu16

/-- A word as a number. -/
def Word.json (w : Word) : Json := .num w.toNat

/-- The registers by name. -/
def Registers.json (s : Registers) : Json :=
  .obj [("a", s.a.json), ("b", s.b.json), ("c", s.c.json), ("x", s.x.json), ("y", s.y.json), ("z", s.z.json),
    ("i", s.i.json), ("j", s.j.json), ("pc", s.pc.json), ("sp", s.sp.json), ("ex", s.ex.json), ("ia", s.ia.json)]

/-- A state by its name, with the message if it has one. -/
def Status.json : Status → Json
  | running => .str "Running"
  | onFire m => .obj [("OnFire", .obj [("message", m.json)])]
  | overflowed => .str "Overflowed"

/-- Who a device is. -/
def Identity.json (d : Identity) : Json :=
  .obj [("hardware_id", .num d.hardwareId), ("version", d.version.json), ("manufacturer", .num d.manufacturer),
    ("name", .str d.name)]

/-- Everything but the memory and the inside of the devices. -/
def Machine.snapshot {δ : Type} [Peripheral δ] (m : Machine δ) : Json :=
  .obj [("regs", m.regs.json), ("state", m.status.json), ("cycles", .num m.cycles), ("sleep_cycles", .num m.sleep),
    ("queueing", .bool m.interrupts.queueing), ("pending_interrupts", .arr (m.interrupts.pending.map Word.json)),
    ("devices", .arr (m.devices.map fun d => (Peripheral.identity d).json))]

/-- A vertex by its parts. -/
def Vertex.json (v : Vertex) : Json :=
  .obj [("color", .str v.color.name), ("intense", .bool v.intense), ("x", .num v.x.toNat), ("y", .num v.y.toNat),
    ("z", .num v.z.toNat)]

/-- What a display shows of a memory. -/
def Display.json (d : Display) (mem : Memory) : Json :=
  .obj [("rotation", .num d.rotation), ("vertices", .arr ((d.vertices mem).map Vertex.json))]

end Dcpu16
