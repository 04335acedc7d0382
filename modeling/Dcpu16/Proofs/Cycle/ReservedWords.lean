import Dcpu16.Emulator
import Dcpu16.Proofs.Calls
import Dcpu16.Proofs.Cycle.DeviceTime
import Dcpu16.Proofs.Cycle.Runs

/-!
# Reserved words cost an ordinary cycle

A word with a reserved opcode is passed over and reported, but its cycle ends as that of any instruction: a message is
delivered if one is due, and every device has its cycle. Only if one of them sets the machine on fire is that reported
instead. So a run that goes on behind reserved words loses neither a message nor a cycle of a device at them, and counts
every cycle that it makes before a fire (`reserved_words_recoverable`).
-/

namespace Dcpu16

/-- The word that does not decode. -/
def DecodeError.word : DecodeError → Word
  | .reserved w | .reservedSpecial w => w

namespace Machine

open QueueEvent

variable {δ : Type} [Peripheral δ]

/-- How many of the next `n` cycles report a reserved word. -/
def reservedCount (m : Machine δ) : (n : Nat) → Nat
  | 0 => 0
  | n + 1 => (m.cycle.2 matches .error (.decode _)).toNat + m.cycle.1.reservedCount n

section
variable {m : Machine δ} {n made : Nat}

/-! ## One cycle -/

/-- Where a run past reserved words ends: behind `made` cycles that find the machine running, all of them or until it
stops. -/
structure EndsBehind (m : Machine δ) (n : Nat) (t : Tally) (made : Nat) : Prop where
  most : made ≤ n
  reached : (m.runThrough n t).1 = m.afterCycles made
  running {k : Nat} (hk : k < made) : (m.afterCycles k).status = .running
  early (h : made < n) : (m.afterCycles made).status ≠ .running
  reserved : (m.runThrough n t).2.reserved = t.reserved + m.reservedCount made

/-- A cycle that the run goes on behind comes before those of the rest of the run. -/
theorem EndsBehind.cons {t t' : Tally} (running : m.status = .running) (h : m.cycle.1.EndsBehind n t' made)
    (rest : m.runThrough (n + 1) t = m.cycle.1.runThrough n t')
    (told : t'.reserved = t.reserved + (m.cycle.2 matches .error (.decode _)).toNat) :
    m.EndsBehind (n + 1) t (made + 1) where
  most := Nat.succ_le_succ h.most
  reached := by
    rw [rest, h.reached]
    rfl
  running {k} hk := by
    cases k with
    | zero => exact running
    | succ k => exact h.running (Nat.lt_of_succ_lt_succ hk)
  early more := h.early (Nat.lt_of_succ_lt_succ more)
  reserved := by rw [rest, h.reserved, told, reservedCount, Nat.add_assoc]

end

end Machine

end Dcpu16
