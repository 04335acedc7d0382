import Dcpu16.Listing
import Dcpu16.Machine.Run

/-!
# Debugger

A machine under observation: single steps, runs up to a breakpoint, and a status line that says what
happened last. Breakpoints are addresses; one stops a run before the instruction at it is executed.
-/

namespace Dcpu16

/-- A machine under observation. -/
structure Debugger where
  machine : Machine
  /-- The image that a reset loads again. -/
  program : List Word
  breakpoints : List Word := []
  /-- Whether the machine runs by itself. -/
  running : Bool := false
  status : String := "Ready. Press 's' to step, 'r' to run, 'q' to quit."
  /-- The first row of memory that is shown. -/
  scroll : Nat := 0
  deriving Inhabited

namespace Debugger

/-- Words of memory in a row. -/
def rowSize : Nat := 8

/-- Rows of memory. -/
def rowCount : Nat := 0x2000

/-- The most instructions that a tick executes. -/
def tickSize : Nat := 500

/-- How an address is named in the status line. -/
def place (p : Word) : String := "PC=" ++ String.ofList p.hex

/-- Executes one whole instruction and shows it in the status line. A fault ends a run. -/
def step : Debugger → Debugger
  | ⟨machine, program, breakpoints, running, _, scroll⟩ =>
    match machine.status with
    | .onFire _ | .overflowed =>
      { machine, program, breakpoints, running := false, status := "CPU halted: " ++ machine.status.text, scroll }
    | .running =>
      let pc := machine.regs.pc
      let text := (machine.mem.lineAt pc).1
      match machine.stepInstruction with
      | (machine, .ok _) =>
        { machine, program, breakpoints, running, status := place pc ++ ": " ++ String.ofList text, scroll }
      | (machine, .error e) =>
        { machine, program, breakpoints, running := false
          status := "Error at " ++ place pc ++ ": " ++ e.message, scroll }

/-- Lets the machine run by itself. -/
def run (d : Debugger) : Debugger := { d with running := true, status := "Running..." }

/-- Stops the machine. -/
def pause (d : Debugger) : Debugger := { d with running := false }

/-- Whether a breakpoint is set at an address. -/
def stopsAt (d : Debugger) (p : Word) : Bool := d.breakpoints.contains p

/-- As long as the machine runs by itself, executes up to `n` instructions; a breakpoint or a fire
ends the run. -/
def advance (d : Debugger) : (n : Nat) → Debugger
  | 0 => d
  | n + 1 =>
    if !d.running then d
    else if !d.machine.isRunning then
      { d with running := false, status := s!"On fire after {d.machine.cycles} cycles" }
    else
      let d := d.step
      if d.running && d.stopsAt d.machine.regs.pc then
        { d with running := false, status := "Breakpoint at " ++ place d.machine.regs.pc }
      else d.advance n

/-- What a running machine does between two looks at it. -/
def tick (d : Debugger) : Debugger := d.advance tickSize

/-- Sets a breakpoint. -/
def setBreakpoint (d : Debugger) (p : Word) : Debugger :=
  if d.stopsAt p then d else { d with breakpoints := p :: d.breakpoints }

/-- Sets a breakpoint at PC, or removes the one that is there. -/
def toggleBreakpoint (d : Debugger) : Debugger :=
  let pc := d.machine.regs.pc
  if d.stopsAt pc then
    { d with breakpoints := d.breakpoints.filter (· ≠ pc), status := "Removed breakpoint at " ++ place pc }
  else { d.setBreakpoint pc with status := "Set breakpoint at " ++ place pc }

/-- Resets the machine and loads the program again. -/
def reset (d : Debugger) : Debugger :=
  let machine := d.machine.reset
  match machine.flash d.program with
  | .ok machine => { d with machine, running := false, status := "Reset. Ready." }
  | .error e => { d with machine, running := false, status := "Reset failed: " ++ e.message }

/-- Shows another part of memory, further on or back by some rows. -/
def scrollBy (d : Debugger) (rows : Int) : Debugger :=
  { d with scroll := min (d.scroll + rows).toNat (rowCount - 1) }

/-- The instructions from PC on: addresses and texts. -/
def disassembly (d : Debugger) (n : Nat) : List (Word × Text) := d.machine.mem.linesFrom d.machine.regs.pc n

/-! ## Keys -/

/-- The keys of the debugger. -/
inductive Key
  | step | run | pause | breakpoint | reset | up | down | pageUp | pageDown
  deriving DecidableEq, Repr

/-- The key of a letter. -/
def Key.ofLetter? : Char → Option Key
  | 's' => some .step
  | 'r' => some .run
  | 'p' => some .pause
  | 'b' => some .breakpoint
  | 'x' => some .reset
  | _ => none

/-- What a key does. -/
def press (d : Debugger) : Key → Debugger
  | .step => d.pause.step
  | .run => d.run
  | .pause => { d.pause with status := "Paused." }
  | .breakpoint => d.toggleBreakpoint
  | .reset => d.reset
  | .up => d.scrollBy (-1)
  | .down => d.scrollBy 1
  | .pageUp => d.scrollBy (-16)
  | .pageDown => d.scrollBy 16

end Debugger

end Dcpu16
