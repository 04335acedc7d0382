import Dcpu16.Device
import Dcpu16.Interrupts
import Dcpu16.Width

/-!
# The machine

The machine is a core with an interrupt queue and attached devices of any kind, and runs cycle by cycle. A cycle
either pays for the instruction in flight, or executes the next one and then delivers at most one
interrupt; in both cases every device has a cycle after that. A message that finds the interrupt queue
full sets the machine on fire, and a machine on fire changes no more until it is reset. What an instruction costs is a
word; a cost that does not fit ends the program, and the machine stands still where it is.
-/

namespace Dcpu16

/-- Whether the machine runs, or which message set it on fire. -/
inductive Status
  | running
  | onFire (message : Word)
  /-- A cost has left its type. This ends the program, so nobody finds a machine in this state. -/
  | overflowed
  deriving DecidableEq, Repr, Inhabited

/-- The name of a state, with the message if it has one. -/
def Status.text : Status → String
  | running => "Running"
  | onFire m => recordText "OnFire" [("message", toString m)]
  | overflowed => "Overflowed"

/-- The machine with devices of type `δ`. -/
structure Machine (δ : Type := Device) extends Core where
  status : Status := .running
  /-- Cycles since the last reset. -/
  cycles : Nat := 0
  /-- Cycles still to be paid for the instruction in flight. -/
  sleep : Nat := 0
  interrupts : InterruptQueue := {}
  devices : List δ := []
  deriving Inhabited

/-- Why the machine refuses. -/
inductive Fault
  | onFire (message : Word)
  | memory (e : Memory.Overflow)
  | decode (e : DecodeError)
  | noSuchDevice (index : Nat)
  /-- The end of the program, since a cost has left its type. -/
  | overflow
  deriving DecidableEq, Repr

/-- How a fault is reported. -/
def Fault.message : Fault → String
  | onFire m => "the DCPU is on fire (interrupt queue overflowed on message " ++ String.ofList m.numeral ++ ")"
  | memory e => "memory error: " ++ e.message
  | decode e => "decode error: " ++ e.message
  | noSuchDevice n => s!"no device attached at index {n}"
  | overflow => "attempt to add with overflow"

namespace Machine

variable {δ : Type}

/-- Whether the machine runs. -/
def isRunning (m : Machine δ) : Bool := m.status = .running

/-- Nothing if the machine runs, and otherwise the fault that it is stopped by. -/
def checkRunning (m : Machine δ) : Except Fault Unit :=
  match m.status with
  | .running => .ok ()
  | .onFire msg => .error (.onFire msg)
  | .overflowed => .error .overflow

/-! ## Setting up -/

/-- Plugs a device into the next free slot. -/
def attach (m : Machine δ) (d : δ) : Machine δ := { m with devices := m.devices ++ [d] }

/-- Replaces the whole memory by an image. -/
def flash (m : Machine δ) (image : List Word) : Except Fault (Machine δ) :=
  match Memory.ofImage image with
  | .ok mem => .ok { m with mem }
  | .error e => .error (.memory e)

/-- Zeroes registers, memory, queue and counters, and puts out a fire. The devices keep their state. -/
def reset (m : Machine δ) : Machine δ := { devices := m.devices }

/-! ## Interrupts -/

/-- Queues a message; one that is refused sets the machine on fire. -/
def raise (m : Machine δ) (msg : Word) : Machine δ :=
  match m.interrupts.push msg with
  | .ok q => { m with interrupts := q }
  | .error e => { m with status := .onFire e.refused }

/-- Takes a message from the queue, unless messages are held back: the handler at IA is entered with
PC and A on the stack and queueing on. Without a handler the message is dropped. -/
def deliver (m : Machine δ) : Machine δ :=
  match m.interrupts.next with
  | (none, _) => m
  | (some msg, q) =>
    if m.regs.ia = 0 then { m with interrupts := q }
    else
      let s := (m.toCore.push m.regs.pc).push m.regs.a
      { m with
        toCore := { s with regs := { s.regs with pc := s.regs.ia, a := msg } }
        interrupts := { q with queueing := true } }

/-! ## Costs -/

/-- Charges the cost of an instruction. From then on it is owed, less the cycle in which the instruction runs. The cost
is counted in sixteen bits. -/
def charge (m : Machine δ) (cost : Nat) : Machine δ :=
  match Width.unsigned 16 cost with
  | some cost => { m with sleep := cost - 1 }
  | none => { m with status := .overflowed }

section
variable {m : Machine δ} {cost : Nat}

theorem charge_of_fits (h : cost < 0x10000) : m.charge cost = { m with sleep := cost - 1 } := by
  have fits : Width.unsigned 16 cost = some cost := if_pos h
  rw [charge, fits]

/-- A cost that is no word ends the program, with nothing charged. -/
theorem charge_of_leaves (h : 0x10000 ≤ cost) : m.charge cost = { m with status := .overflowed } := by
  have leaves : Width.unsigned 16 cost = none := if_neg (Nat.not_lt.mpr h)
  rw [charge, leaves]

/-- A charge reaches what is owed and the status. -/
theorem charge_eq : m.charge cost = { m with sleep := (m.charge cost).sleep, status := (m.charge cost).status } := by
  unfold charge
  split <;> rfl

@[simp] theorem toCore_charge : (m.charge cost).toCore = m.toCore := by unfold charge; split <;> rfl
@[simp] theorem cycles_charge : (m.charge cost).cycles = m.cycles := by unfold charge; split <;> rfl
@[simp] theorem interrupts_charge : (m.charge cost).interrupts = m.interrupts := by unfold charge; split <;> rfl
@[simp] theorem devices_charge : (m.charge cost).devices = m.devices := by unfold charge; split <;> rfl

/-- A charge that does not end the program leaves the status. -/
theorem status_charge (h : (m.charge cost).status ≠ .overflowed) : (m.charge cost).status = m.status := by
  rcases Nat.lt_or_ge cost 0x10000 with fits | leaves
  · rw [charge_of_fits fits]
  · rw [charge_of_leaves leaves] at h
    exact absurd rfl h

end

/-! ## Devices -/

variable [Peripheral δ]

/-- Lets a device handle an interrupt, if there is one at the index. -/
def interruptDevice? (m : Machine δ) (index : Nat) : Option (Machine δ) :=
  m.devices[index]?.map fun d =>
    let (d, s) := Peripheral.interrupt d m.toCore
    { m with toCore := s, devices := m.devices.set index d }

/-! ## Executing -/

/-- Runs a special operation on a resolved operand. -/
def applySpecial (m : Machine δ) (op : SpecialOp) (place : Location) : Machine δ :=
  let v := m.toCore.load place
  match op with
  | .jsr =>
    let s := m.toCore.push m.regs.pc
    { m with toCore := { s with regs.pc := v } }
  | .int => m.raise v
  | .iag => { m with toCore := m.toCore.store place m.regs.ia }
  | .ias => { m with regs.ia := v }
  | .rfi =>
    let (a, s) := m.toCore.pop
    let (pc, s) := s.pop
    { m with toCore := { s with regs := { s.regs with a, pc } }, interrupts.queueing := false }
  | .iaq => { m with interrupts.queueing := v ≠ 0 }
  | .hwn => { m with toCore := m.toCore.store place (UInt16.ofNat m.devices.length) }
  | .hwq =>
    match m.devices[v.toNat]? with
    | none => m
    | some d =>
      let info := Peripheral.identity d
      let (idHigh, idLow) := Word.split info.hardwareId
      let (makerHigh, makerLow) := Word.split info.manufacturer
      { m with regs := { m.regs with a := idLow, b := idHigh, c := info.version, x := makerLow, y := makerHigh } }
  | .hwi => (m.interruptDevice? v.toNat).getD m

/-- Runs a special operation whose instruction word PC has passed. -/
def special (m : Machine δ) (op : SpecialOp) (a : Operand) : Machine δ :=
  let (place, regs) := m.toCore.resolve a
  { m with regs }.applySpecial op place

/-- Runs an instruction whose first word PC has passed. It costs its own cycles, one for each next word and one for each
instruction skipped. -/
def execute (m : Machine δ) (i : Instruction) : Machine δ :=
  match i with
  | .basic op b a =>
    let (s, skipped) := m.toCore.basic op b a
    { m with toCore := s }.charge (i.cycles + i.extraWords + skipped)
  | .special op a => (m.special op a).charge (i.cycles + i.extraWords)

theorem toCore_execute_basic (m : Machine δ) (op : BasicOp) (b a : Operand) :
    (m.execute (.basic op b a)).toCore = (m.toCore.basic op b a).1 := toCore_charge

/-- The cost of a special operation is a word. -/
theorem execute_special (m : Machine δ) (op : SpecialOp) (a : Operand) :
    m.execute (.special op a) = { m.special op a with sleep := op.cycles + a.extraWords - 1 } :=
  charge_of_fits (Nat.lt_of_le_of_lt (Instruction.charge_le (.special op a)) (by decide))

/-- Executes the instruction at PC; a word with a reserved opcode is passed over. -/
def step (m : Machine δ) : Machine δ × Except DecodeError Instruction :=
  let w := m.toCore.fetch
  match Instruction.decode w with
  | .ok i => (({ m with regs := m.regs.advance 1 }).execute i, .ok i)
  | .error e => ({ m with regs := m.regs.advance (UInt16.ofNat w.instructionLength) }, .error e)

/-! ## Cycles -/

/-- Pays for the instruction in flight; if it is paid, executes the next one and delivers. -/
def advance (m : Machine δ) : Machine δ × Except Fault (Option Instruction) :=
  if 0 < m.sleep then ({ m with sleep := m.sleep - 1 }, .ok none)
  else
    let (m, executed) := m.step
    (if m.isRunning then m.deliver else m,
      match executed with
      | .ok i => .ok (some i)
      | .error e => .error (.decode e))

/-- Gives every device a cycle and queues what they raise, in the order of attachment. A message that is
refused ends this; the devices behind do not get their cycle. -/
def cycleAll : List δ → InterruptQueue → List δ × InterruptQueue × Status
  | [], q => ([], q, .running)
  | d :: ds, q =>
    match Peripheral.cycle d with
    | (d, none) =>
      let (ds, rest) := cycleAll ds q
      (d :: ds, rest)
    | (d, some msg) =>
      match q.push msg with
      | .ok q =>
        let (ds, rest) := cycleAll ds q
        (d :: ds, rest)
      | .error e => (d :: ds, q, .onFire e.refused)

/-- Gives every device a cycle. -/
def cycleDevices (m : Machine δ) : Machine δ :=
  let (devices, interrupts, status) := cycleAll m.devices m.interrupts
  { m with devices, interrupts, status }

/-- One cycle of the machine: the instruction that it executed, nothing while an earlier one is paid for,
or a fault. A reserved opcode is reported too, but the cycle is an ordinary one. -/
def cycle (m : Machine δ) : Machine δ × Except Fault (Option Instruction) :=
  match m.status with
  | .onFire msg => (m, .error (.onFire msg))
  | .overflowed => (m, .error .overflow)
  | .running =>
    let (m, outcome) := { m with cycles := m.cycles + 1 }.advance
    let m := if m.isRunning then m.cycleDevices else m
    (m, match m.checkRunning with | .ok () => outcome | .error e => .error e)

/-! ## Requests from outside -/

omit [Peripheral δ] in
/-- Queues a message as the instruction INT does. -/
def interrupt (m : Machine δ) (msg : Word) : Machine δ × Except Fault Unit :=
  match m.checkRunning with
  | .error e => (m, .error e)
  | .ok () =>
    let m := m.raise msg
    (m, m.checkRunning)

/-- Sends an interrupt to a device as the instruction HWI does. -/
def interruptDevice (m : Machine δ) (index : Nat) : Machine δ × Except Fault Unit :=
  match m.checkRunning with
  | .error e => (m, .error e)
  | .ok () =>
    match m.interruptDevice? index with
    | some m => (m, .ok ())
    | none => (m, .error (.noSuchDevice index))

/-- The machine as a record of its main parts. -/
def text (m : Machine δ) : String :=
  recordText "Cpu" [("state", m.status.text), ("cycles", toString m.cycles), ("regs", m.regs.text),
    ("pending_interrupts", toString m.interrupts.pending.length),
    ("devices", "[" ++ String.intercalate ", " (m.devices.map Peripheral.text) ++ "]")]

end Machine

end Dcpu16
