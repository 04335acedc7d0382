import Dcpu16.Assembly
import Dcpu16.Listing
import Dcpu16.Machine.Run
import Dcpu16.Machine.Snapshot

/-!
# Emulator

A machine for embedding in another program: it has a clock and a display, in that order, and remembers the
program that was loaded last.
-/

namespace Dcpu16

/-- An embedded machine and the program that a reset loads again. -/
structure Emulator where
  machine : Machine := { devices := [.clock {}, .display {}] }
  program : List Word := []
  deriving Inhabited

namespace Emulator

/-- Resets the machine and loads an image. -/
def load (e : Emulator) (image : List Word) : Emulator × Except Fault Unit :=
  let machine := e.machine.reset
  match machine.flash image with
  | .ok machine => ({ machine, program := image }, .ok ())
  | .error fault => ({ e with machine }, .error fault)

/-- Why a program text cannot be loaded. -/
inductive LoadError
  | assembly (e : AssemblyError)
  | fault (e : Fault)
  deriving Repr

/-- Assembles a program text and loads it; answers its length in words. -/
def loadSource (e : Emulator) (source : Text) : Emulator × Except LoadError Nat :=
  match assemble source with
  | .error err => (e, .error (.assembly err))
  | .ok image =>
    match e.load image with
    | (e, .ok ()) => (e, .ok image.length)
    | (e, .error err) => (e, .error (.fault err))

/-- Executes one whole instruction; answers the text of the one at PC. -/
def step : Emulator → Emulator × Except Fault Text
  | ⟨machine, program⟩ =>
    let text := (machine.mem.lineAt machine.regs.pc).1
    let (machine, outcome) := machine.stepInstruction
    ({ machine, program }, outcome.map fun _ => text)

/-- Runs up to `n` cycles past reserved opcodes, fewer if the machine is on fire; answers the cycles since
the last reset. -/
def run : Emulator → (n : Nat) → Emulator × Nat
  | ⟨machine, program⟩, n =>
    let (machine, _) := machine.runThrough n {}
    ({ machine, program }, machine.cycles)

/-- Queues an interrupt message. -/
def interrupt (e : Emulator) (msg : Word) : Emulator × Except Fault Unit :=
  let (machine, outcome) := e.machine.interrupt msg
  ({ e with machine }, outcome)

/-- Resets the machine and loads the program again. -/
def reset (e : Emulator) : Emulator × Except Fault Unit := e.load e.program

/-- The registers as JSON. -/
def registersJson (e : Emulator) : String := e.machine.regs.json.compact

/-- The state of the machine as JSON. -/
def snapshotJson (e : Emulator) : String := e.machine.snapshot.compact

/-- The display that is attached second. -/
def display? (e : Emulator) : Option Display :=
  match (e.machine.devices[1]? : Option Device) with
  | some (.display d) => some d
  | _ => none

/-- What the display shows as JSON. -/
def displayJson? (e : Emulator) : Option String := e.display?.map fun d => (d.json e.machine.mem).compact

end Emulator

end Dcpu16
