import Dcpu16.Assembly
import Dcpu16.Machine.Run

/-!
# Self-test

Four small programs that exercise arithmetic, interrupts, the clock and the floppy drive.
-/

namespace Dcpu16.SelfTest

/-- Assembles a program, loads it into a machine with the given devices and runs it for some cycles. -/
def runProgram (source : String) (devices : List Device) (cycles : Nat) : Except String Machine := do
  let image ← (assemble source.toList).mapError AssemblyError.message
  let m ← (({ devices } : Machine).flash image).mapError Fault.message
  match m.run cycles with
  | (m, .ok ()) => return m
  | (_, .error e) => throw e.message

/-- Passes if the condition holds, else tells what was found. -/
def expect (holds : Bool) (found : String) : Except String Unit := if holds then .ok () else .error found

/-- An addition carries into EX. -/
def checkArithmetic : Except String Unit := do
  let m ← runProgram "SET A, 0xffff\nADD A, 2\nSET B, EX" [] 4
  expect (m.regs.a = 1 && m.regs.b = 1)
    ("A=" ++ String.ofList m.regs.a.numeral ++ " B=" ++ String.ofList m.regs.b.numeral ++ ", expected 0x0001 0x0001")

/-- A handler gets the message and returns. -/
def checkInterrupts : Except String Unit := do
  let m ← runProgram "IAS handler\nINT 0x42\n:halt SET PC, halt\n:handler SET B, A\nRFI 0" [] 30
  expect (m.regs.b = 0x42 && !m.interrupts.queueing) ("B=" ++ String.ofList m.regs.b.numeral ++ ", expected 0x0042")

/-- A clock ticks as often as its period says. -/
def checkClock : Except String Unit := do
  let m ← runProgram "SET A, 0\nSET X, 10\nHWI 0\n:wait SET PC, wait" [.clock {}] 105
  let ticks : Word :=
    match m.devices with
    | [.clock c] => c.ticks
    | _ => 0
  expect (9 ≤ ticks) s!"{ticks} ticks, expected at least 9"

/-- A written sector holds the words that stood in memory. -/
def checkFloppy : Except String Unit := do
  let source := "SET A, 3\nSET X, 7\nSET Y, data\nHWI 0\n:halt SET PC, halt\n:data DAT 0xcafe"
  let m ← runProgram source [.floppy { disk := some (.blank false) }] 20
  let word : Option Word :=
    match m.devices with
    | [.floppy f] => (f.disk.bind (·.sector? 7)).bind List.head?
    | _ => none
  expect (word = some 0xcafe) ("sector 7 starts with " ++ Floppy.optionText (word.map toString) ++ ", expected 0xcafe")

/-- The checks with their names. -/
def checks : List (String × Except String Unit) :=
  [("Arithmetic and EX", checkArithmetic), ("Interrupt round trip", checkInterrupts), ("Clock ticks", checkClock),
    ("Floppy sector copy", checkFloppy)]

end Dcpu16.SelfTest
