import Dcpu16.Machine

/-!
# Running

Runs of many cycles: up to the first fault, over one whole instruction, or past every reserved opcode.
-/

namespace Dcpu16.Machine

variable {δ : Type} [Peripheral δ]

/-- Runs `n` cycles and stops at the first fault. -/
def run (m : Machine δ) : (n : Nat) → Machine δ × Except Fault Unit
  | 0 => (m, .ok ())
  | n + 1 =>
    match m.cycle with
    | (m, .error e) => (m, .error e)
    | (m, .ok _) => m.run n

/-- Runs `n` cycles, stops at the first fault, and otherwise counts the cycles that went by. -/
def runCounted (m : Machine δ) (n : Nat) : Machine δ × Except Fault Nat :=
  let before := m.cycles
  let (m, outcome) := m.run n
  (m, outcome.map fun _ => m.cycles - before)

/-- Runs one whole instruction: what is owed for the instruction in flight, the cycle that executes the
next one, and what is owed for that. Stops at the first fault. -/
def stepInstruction (m : Machine δ) : Machine δ × Except Fault (Option Instruction) :=
  match m.run m.sleep with
  | (m, .error e) => (m, .error e)
  | (m, .ok ()) =>
    match m.cycle with
    | (m, .error e) => (m, .error e)
    | (m, .ok executed) =>
      match m.run m.sleep with
      | (m, .error e) => (m, .error e)
      | (m, .ok ()) => (m, .ok executed)

/-- What happened in a run that passes over reserved opcodes. -/
structure Tally where
  /-- Instructions executed. -/
  executed : Nat := 0
  /-- Reserved opcodes passed over. -/
  reserved : Nat := 0
  /-- The last fault of any kind. -/
  last : Option Fault := none
  deriving Repr, Inhabited

/-- Runs up to `n` cycles, passes over reserved opcodes, and stops at any other fault. -/
def runThrough (m : Machine δ) (n : Nat) (t : Tally) : Machine δ × Tally :=
  match n with
  | 0 => (m, t)
  | n + 1 =>
    match m.cycle with
    | (m, .ok none) => m.runThrough n t
    | (m, .ok (some _)) => m.runThrough n { t with executed := t.executed + 1 }
    | (m, .error (.decode e)) => m.runThrough n { t with reserved := t.reserved + 1, last := some (.decode e) }
    | (m, .error e) => (m, { t with last := some e })

end Dcpu16.Machine
