import Dcpu16.Device.Clock

/-!
# Clocks over many cycles

A clock that runs makes a tick of every period of cycles, and keeps the rest (`Clock.afterCycles_eq`).
-/

namespace Dcpu16.Clock

/-- The clock after a number of cycles. -/
def afterCycles (c : Clock) : (n : Nat) → Clock
  | 0 => c
  | n + 1 => c.cycle.1.afterCycles n

/-- The clock with `n` more cycles since its last tick, and a tick for every period of them. -/
def elapse (c : Clock) (n : Nat) : Clock :=
  { c with
    elapsed := (c.elapsed + n) % c.period.toNat
    ticks := c.ticks + UInt16.ofNat ((c.elapsed + n) / c.period.toNat) }

variable {c : Clock}

theorem cycle_eq (h : c.elapsed < c.period.toNat) : c.cycle.1 = c.elapse 1 := by
  have runs : c.period ≠ 0 := by
    intro stopped
    rw [stopped] at h
    exact Nat.not_lt_zero _ h
  unfold cycle elapse
  rw [if_neg runs]
  split
  · next before =>
    rw [Nat.mod_eq_of_lt before, Nat.div_eq_of_lt before]
    simp
  · next tick =>
    have full : c.elapsed + 1 = c.period.toNat := by omega
    rw [full, Nat.mod_self, Nat.div_self (by omega)]
    rfl

theorem elapse_elapse (h : 0 < c.period.toNat) (m n : Nat) : (c.elapse m).elapse n = c.elapse (m + n) := by
  have rest : ((c.elapsed + m) % c.period.toNat + n) % c.period.toNat = (c.elapsed + (m + n)) % c.period.toNat := by
    rw [Nat.mod_add_mod, Nat.add_assoc]
  have parts : c.elapsed + (m + n) =
      c.period.toNat * ((c.elapsed + m) / c.period.toNat) + ((c.elapsed + m) % c.period.toNat + n) := by
    rw [← Nat.add_assoc (c.period.toNat * _), Nat.div_add_mod, Nat.add_assoc]
  have whole : (c.elapsed + (m + n)) / c.period.toNat =
      (c.elapsed + m) / c.period.toNat + ((c.elapsed + m) % c.period.toNat + n) / c.period.toNat := by
    rw [parts, Nat.mul_add_div h]
  simp only [elapse, rest, whole, UInt16.ofNat_add, UInt16.add_assoc]

/-- A clock that runs counts the cycles by ticks and a rest. -/
theorem afterCycles_eq (h : c.elapsed < c.period.toNat) (n : Nat) : c.afterCycles n = c.elapse n := by
  induction n generalizing c with
  | zero => simp [afterCycles, elapse, Nat.mod_eq_of_lt h, Nat.div_eq_of_lt h]
  | succ n ih =>
    have positive : 0 < c.period.toNat := Nat.lt_of_le_of_lt (Nat.zero_le _) h
    have within : (c.elapse 1).elapsed < (c.elapse 1).period.toNat := Nat.mod_lt _ positive
    rw [afterCycles, cycle_eq h, ih within, elapse_elapse positive, Nat.add_comm]

end Dcpu16.Clock
