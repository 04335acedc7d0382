import Dcpu16.Core
import Dcpu16.Device.Identity

/-!
# Clock

Counts the cycles of the machine and makes a tick of every period of them. A command in A sets the
period (0), reads the ticks since the last reading (1), or sets the message that a tick raises (2).
-/

namespace Dcpu16

/-- A clock. A period of zero stops it, a message of zero keeps it silent. -/
structure Clock where
  /-- Cycles in a tick. -/
  period : Word := 0
  /-- Cycles since the last tick. -/
  elapsed : Nat := 0
  /-- Ticks since the period was set or the ticks were read. -/
  ticks : Word := 0
  message : Word := 0
  deriving DecidableEq, Repr, Inhabited

namespace Clock

/-- Who a clock is. -/
def identity : Identity := ⟨0x12d0b402, 0x0001, 0, "Generic Clock (compatible)"⟩

/-- Handles the command in A. -/
def interrupt (c : Clock) (regs : Registers) : Clock × Registers :=
  match regs.a with
  | 0 => ({ c with period := regs.x, elapsed := 0, ticks := 0 }, regs)
  | 1 => ({ c with ticks := 0 }, { regs with c := if c.period = 0 then 0 else c.ticks })
  | 2 => ({ c with message := regs.x }, regs)
  | _ => (c, regs)

/-- One cycle: the clock after it, and the message it raises. -/
def cycle (c : Clock) : Clock × Option Word :=
  if c.period = 0 then (c, none)
  else if c.elapsed + 1 < c.period.toNat then ({ c with elapsed := c.elapsed + 1 }, none)
  else ({ c with elapsed := 0, ticks := c.ticks + 1 }, if c.message = 0 then none else some c.message)

/-- A clock as a record. -/
def text (c : Clock) : String :=
  recordText "Clock" [("cycles_per_tick", toString c.period), ("cycles", toString c.elapsed),
    ("ticks", toString c.ticks), ("interrupt_message", toString c.message)]

end Clock

end Dcpu16
