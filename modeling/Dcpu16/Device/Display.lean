import Dcpu16.Core
import Dcpu16.Device.Identity

/-!
# Display

Projects up to 128 vertices that stand in memory, and turns the projection towards a target angle by the
shorter way. A command in A polls the display (0), maps Y vertices from address X (1) or sets the
target angle (2).
-/

namespace Dcpu16

/-! ## Vertices -/

/-- The colour of a vertex. -/
inductive VertexColor
  | black | red | green | blue
  deriving DecidableEq, Repr, Inhabited

/-- The name of a colour. -/
def VertexColor.name : VertexColor → String
  | black => "Black"
  | red => "Red"
  | green => "Green"
  | blue => "Blue"

/-- A projected point. -/
structure Vertex where
  x : UInt8
  y : UInt8
  z : UInt8
  color : VertexColor
  intense : Bool
  deriving DecidableEq, Repr, Inhabited

/-- The vertex in two words: X and Y in the bytes of the first; Z, two bits of colour and one of intensity
in the second. -/
def Vertex.ofWords (first second : Word) : Vertex where
  x := first.toUInt8
  y := (first >>> 8).toUInt8
  z := second.toUInt8
  color :=
    match second.toNat / 0x100 % 4 with
    | 0 => .black
    | 1 => .red
    | 2 => .green
    | _ => .blue
  intense := second &&& 0x400 ≠ 0

/-! ## The display -/

/-- A display. Angles are in degrees, below 360. -/
structure Display where
  /-- Where the mapped vertices start. -/
  address : Word := 0
  /-- How many vertices are mapped. -/
  count : Nat := 0
  rotation : Nat := 0
  target : Nat := 0
  /-- Cycles since the last degree of turning. -/
  turned : Nat := 0
  /-- Whether a mapping was refused since the last poll. -/
  broken : Bool := false
  deriving DecidableEq, Repr, Inhabited

namespace Display

/-- Who a display is. -/
def identity : Identity :=
  ⟨0x42babf3c, 0x0003, 0x1eb37e91, "Mackapar Suspended Particle Exciter Display, Rev 3 (SPED-3)"⟩

/-- The most vertices that can be mapped. -/
def maxVertices : Nat := 128

/-- Cycles in a degree of turning. -/
def cyclesPerDegree : Nat := 2000

/-- The state that a poll reports: no vertices, showing, or showing and turning. -/
def state (d : Display) : Word :=
  if d.count = 0 then 0 else if d.rotation ≠ d.target then 2 else 1

/-- The mapped vertices. -/
def vertices (d : Display) (mem : Memory) : List Vertex :=
  (List.range d.count).map fun n =>
    let p := d.address + UInt16.ofNat (2 * n)
    .ofWords (mem.read p) (mem.read (p + 1))

/-- Handles the command in A. -/
def interrupt (d : Display) (regs : Registers) : Display × Registers :=
  match regs.a with
  | 0 => ({ d with broken := false }, { regs with b := d.state, c := if d.broken then 0xffff else 0 })
  | 1 =>
    if maxVertices < regs.y.toNat then ({ d with broken := true }, regs)
    else ({ d with address := regs.x, count := regs.y.toNat }, regs)
  | 2 => ({ d with target := regs.x.toNat % 360 }, regs)
  | _ => (d, regs)

/-- The next angle on the shorter way from `rotation` to `target`; of two equal ways the one upwards. -/
def nextDegree (rotation target : Nat) : Nat :=
  if (target + 360 - rotation) % 360 ≤ 180 then (rotation + 1) % 360 else (rotation + 359) % 360

/-- One cycle. A display raises no interrupts. -/
def cycle (d : Display) : Display :=
  if d.rotation = d.target then { d with turned := 0 }
  else if d.turned + 1 < cyclesPerDegree then { d with turned := d.turned + 1 }
  else { d with turned := 0, rotation := nextDegree d.rotation d.target }

/-- A display as a record. -/
def text (d : Display) : String :=
  recordText "Display" [("vertex_addr", toString d.address), ("vertex_count", toString d.count),
    ("rotation", toString d.rotation), ("target_rotation", toString d.target), ("turn_cycles", toString d.turned),
    ("broken", toString d.broken)]

end Display

end Dcpu16
