import Dcpu16.Arithmetic
import Dcpu16.Instruction.Encoding
import Dcpu16.Memory

/-!
# Registers and memory together

The part of the machine that instructions and devices both see: the register file and the memory.
Here operands become places, places are read and written, and the basic operations run; they reach
nothing else.
-/

namespace Dcpu16

/-- The register file and the memory. -/
structure Core where
  regs : Registers := {}
  mem : Memory := .blank
  deriving DecidableEq, Inhabited

/-- Where an operand reads from and writes to. -/
inductive Location
  | register (r : Register)
  | memory (p : Word)
  | sp | pc | ex
  /-- A value without a place: writing to it does nothing. -/
  | literal (v : Word)
  deriving DecidableEq, Repr

namespace Core

/-! ## Places -/

/-- The value at a place. -/
def load (s : Core) : Location → Word
  | .register r => s.regs.get r
  | .memory p => s.mem.read p
  | .sp => s.regs.sp
  | .pc => s.regs.pc
  | .ex => s.regs.ex
  | .literal v => v

/-- Puts a value into a place. -/
def store (s : Core) (l : Location) (v : Word) : Core :=
  match l with
  | .register r => { s with regs := s.regs.set r v }
  | .memory p => { s with mem := s.mem.write p v }
  | .sp => { s with regs.sp := v }
  | .pc => { s with regs.pc := v }
  | .ex => { s with regs.ex := v }
  | .literal _ => s

/-- The word at PC. -/
def fetch (s : Core) : Word := s.mem.read s.regs.pc

/-- The place of an operand, and the registers once PC has passed its next word and SP has moved. -/
def resolve (s : Core) : Operand → Location × Registers
  | .register r => (.register r, s.regs)
  | .indirect r => (.memory (s.regs.get r), s.regs)
  | .indirectOffset r => (.memory (s.regs.get r + s.fetch), s.regs.advance 1)
  | .push => (.memory s.regs.pushed.sp, s.regs.pushed)
  | .pop => (.memory s.regs.sp, s.regs.popped)
  | .peek => (.memory s.regs.sp, s.regs)
  | .pick => (.memory (s.regs.sp + s.fetch), s.regs.advance 1)
  | .sp => (.sp, s.regs)
  | .pc => (.pc, s.regs)
  | .ex => (.ex, s.regs)
  | .indirectNext => (.memory s.fetch, s.regs.advance 1)
  | .next => (.literal s.fetch, s.regs.advance 1)
  | .literal v => (.literal v, s.regs)

theorem load_store (s : Core) (l : Location) (v : Word) :
    (s.store l v).load l = match l with | .literal u => u | _ => v := by
  cases l <;> simp [load, store, Registers.get_set, Memory.read_write]

/-! ## The stack -/

/-- Pushes a word. -/
def push (s : Core) (v : Word) : Core :=
  { s with regs := s.regs.pushed, mem := s.mem.write s.regs.pushed.sp v }

/-- Pops a word. -/
def pop (s : Core) : Word × Core := (s.mem.read s.regs.sp, { s with regs := s.regs.popped })

theorem pop_push (s : Core) (v : Word) : (s.push v).pop.1 = v ∧ (s.push v).pop.2.regs = s.regs := by
  simp [push, pop, Memory.read_write, Registers.popped_pushed]

/-! ## Skipping -/

/-- Follows the instructions from an address to the first that is not conditional, over at most
`fuel` of them: the address behind it, and how many were passed, added to `passed`. -/
def skipFrom (mem : Memory) : (fuel : Nat) → (p : Word) → (passed : Nat) → Option (Word × Nat)
  | 0, _, _ => none
  | fuel + 1, p, passed =>
    let w := mem.read p
    let behind := p + UInt16.ofNat w.instructionLength
    if w.isConditional then skipFrom mem fuel behind (passed + 1) else some (behind, passed + 1)

/-- Passes over the instruction at PC and, as long as it is conditional, over those behind it; counts
them. As many steps as there are addresses visit every instruction that can be reached; if all of them are
conditional there is nothing to end on, and more are counted than a word can tell. -/
def skip (s : Core) : Core × Nat :=
  match skipFrom s.mem Word.count s.regs.pc 0 with
  | some (p, passed) => ({ s with regs.pc := p }, passed)
  | none => (s, Word.count)

/-! ## Basic operations -/

/-- Carries out an effect on a destination. A test stores nothing. -/
def perform (s : Core) (dest : Location) : Effect → Core
  | .store v => s.store dest v
  | .storeEx v ex => (s.store dest v).store .ex ex
  | .storeStep v step =>
    let s := s.store dest v
    { s with regs.i := s.regs.i + step, regs.j := s.regs.j + step }
  | .test _ => s

/-- Runs a basic operation on a resolved destination and the value of its source; counts the instructions it
skips. -/
def applyBasic (s : Core) (op : BasicOp) (dest : Location) (value : Word) : Core × Nat :=
  match op.effect (s.load dest) value s.regs.ex with
  | .test false => s.skip
  | effect => (s.perform dest effect, 0)

/-- Runs a basic operation whose instruction word PC has passed; counts the instructions it skips. The
source is resolved and read before the destination. -/
def basic (s : Core) (op : BasicOp) (b a : Operand) : Core × Nat :=
  let (src, regs) := s.resolve a
  let s := { s with regs }
  let value := s.load src
  let (dest, regs) := s.resolve b
  { s with regs }.applyBasic op dest value

end Core

end Dcpu16
