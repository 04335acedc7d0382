import Dcpu16.Proofs.Device.Clock
import Mathlib.Data.List.Induction
import Mathlib.Data.Nat.ModEq

/-!
# Ticks are neither lost nor invented

A clock is told of cycles and given commands, in any order. From where its period is set, the ticks that were read and
those that are still to be read are together the periods that have gone by, and the cycle that ends a period raises the
message that is set then (`ticks_conserved`). The count of cycles stays below the period, so it fits into a word.
-/

namespace Dcpu16

/-- What is asked of a clock; it sees the registers with a command. -/
inductive ClockCall
  | cycle
  | command (regs : Registers)
  deriving DecidableEq, Repr

namespace ClockCall

/-- The period that a call sets. -/
def period? : ClockCall → Option Word
  | cycle => none
  | command regs => if regs.a = 0 then some regs.x else none

/-- The message that a call sets. -/
def message? : ClockCall → Option Word
  | cycle => none
  | command regs => if regs.a = 2 then some regs.x else none

/-- What calls have set last, and zero if they have set nothing. -/
def last (set? : ClockCall → Option Word) (calls : List ClockCall) : Word :=
  (calls.filterMap set?).getLast?.getD 0

theorem last_append_singleton (set? : ClockCall → Option Word) (calls : List ClockCall) (call : ClockCall) :
    last set? (calls ++ [call]) = (set? call).getD (last set? calls) := by
  cases h : set? call <;> simp [last, h]

end ClockCall

open ClockCall

namespace Clock

def perform (c : Clock) : ClockCall → Clock
  | .cycle => c.cycle.1
  | .command regs => (c.interrupt regs).1

def performAll (c : Clock) (calls : List ClockCall) : Clock := calls.foldl perform c

/-- What a call answers in C, if it is a reading. -/
def reading? (c : Clock) : ClockCall → Option Word
  | .cycle => none
  | .command regs => if regs.a = 1 then some (c.interrupt regs).2.c else none

def readings (c : Clock) : List ClockCall → List Word
  | [] => []
  | call :: calls => (c.reading? call).toList ++ (c.perform call).readings calls

def total (ws : List Word) : Nat := (ws.map UInt16.toNat).sum

/-- A clock that is stopped counts nothing, and one that runs has not come to the end of its period. -/
def Regular (c : Clock) : Prop := if c.period = 0 then c.elapsed = 0 ∧ c.ticks = 0 else c.elapsed < c.period.toNat

/-- Since the period was set `n` cycles have gone by, and `read` ticks were read. -/
structure Counts (c : Clock) (period : Word) (n read : Nat) : Prop where
  period_eq : c.period = period
  elapsed_eq : c.elapsed = n % period.toNat
  ticks_modEq : read + c.ticks.toNat ≡ n / period.toNat [MOD Word.count]

theorem toNat_pos {w : Word} (h : w ≠ 0) : 0 < w.toNat := by
  apply Nat.pos_of_ne_zero
  intro zero
  exact h (UInt16.toNat_inj.mp zero)

section
variable {c : Clock} {p : Word} {n read : Nat}

theorem performAll_append (c : Clock) (front behind : List ClockCall) :
    c.performAll (front ++ behind) = (c.performAll front).performAll behind := List.foldl_append

/-! ## What is set -/

theorem period_perform (c : Clock) (call : ClockCall) : (c.perform call).period = (period? call).getD c.period := by
  cases call with
  | cycle =>
    show c.cycle.1.period = c.period
    unfold cycle
    split
    · rfl
    · split <;> rfl
  | command regs =>
    simp only [perform, interrupt, period?]
    split <;> simp_all

theorem message_perform (c : Clock) (call : ClockCall) :
    (c.perform call).message = (message? call).getD c.message := by
  cases call with
  | cycle =>
    show c.cycle.1.message = c.message
    unfold cycle
    split
    · rfl
    · split <;> rfl
  | command regs =>
    simp only [perform, interrupt, message?]
    split <;> simp_all

/-- What a call sets stays until another one sets it. -/
theorem set_performAll (calls : List ClockCall) :
    (({} : Clock).performAll calls).period = last period? calls ∧
      (({} : Clock).performAll calls).message = last message? calls := by
  induction calls using List.reverseRecOn with
  | nil => exact ⟨rfl, rfl⟩
  | append_singleton calls call ih =>
    rw [performAll_append, last_append_singleton, last_append_singleton, ← ih.1, ← ih.2]
    exact ⟨period_perform _ call, message_perform _ call⟩

/-! ## Cycles and commands -/

theorem regular_perform (h : c.Regular) (call : ClockCall) : (c.perform call).Regular := by
  cases call with
  | cycle =>
    unfold Regular at h
    split at h
    · next stopped =>
      have idle : c.cycle.1 = c := by rw [cycle, if_pos stopped]
      show c.cycle.1.Regular
      rw [idle, Regular, if_pos stopped]
      exact h
    · next runs =>
      show c.cycle.1.Regular
      rw [cycle_eq h, Regular, if_neg (show (c.elapse 1).period ≠ 0 from runs)]
      exact Nat.mod_lt _ (toNat_pos runs)
  | command regs =>
    simp only [perform, interrupt]
    split
    · unfold Regular
      split
      · exact ⟨rfl, rfl⟩
      · next runs => exact toNat_pos runs
    · unfold Regular at h ⊢
      split
      · next stopped =>
        rw [if_pos (show c.period = 0 from stopped)] at h
        exact ⟨h.1, rfl⟩
      · next runs => rwa [if_neg (show c.period ≠ 0 from runs)] at h
    · exact h
    · exact h

theorem regular_performAll (h : c.Regular) (calls : List ClockCall) : (c.performAll calls).Regular := by
  induction calls generalizing c with
  | nil => exact h
  | cons call calls ih => exact ih (regular_perform h call)

theorem elapsed_succ_lt (h : c.Regular) : c.elapsed + 1 < Word.count := by
  have bound : c.period.toNat < Word.count := c.period.toNat_lt
  unfold Regular at h
  split at h
  · rw [h.1]
    decide
  · omega

theorem Counts.cycle (h : c.Counts p n read) (runs : p ≠ 0) : c.cycle.1.Counts p (n + 1) read := by
  have positive := toNat_pos runs
  have below : c.elapsed < c.period.toNat := by
    rw [h.elapsed_eq, h.period_eq]
    exact Nat.mod_lt n positive
  rw [cycle_eq below]
  refine ⟨h.period_eq, ?_, ?_⟩
  · show (c.elapsed + 1) % c.period.toNat = _
    rw [h.elapsed_eq, h.period_eq, Nat.mod_add_mod]
  · -- the tick that the cycle makes is the period that it completes
    have periods : (n + 1) / p.toNat = n / p.toNat + (n % p.toNat + 1) / p.toNat := by
      have parts : n + 1 = p.toNat * (n / p.toNat) + (n % p.toNat + 1) := by
        rw [← Nat.add_assoc, Nat.div_add_mod]
      rw [parts, Nat.mul_add_div positive]
    show read + (c.ticks + UInt16.ofNat ((c.elapsed + 1) / c.period.toNat)).toNat ≡ _ [MOD Word.count]
    rw [h.elapsed_eq, h.period_eq, periods, UInt16.toNat_add, UInt16.toNat_ofNat']
    have kept := h.ticks_modEq
    simp only [Nat.ModEq, Word.count] at kept ⊢
    omega

theorem Counts.command (h : c.Counts p n read) (runs : p ≠ 0) {regs : Registers}
    (unset : period? (.command regs) = none) :
    (c.perform (.command regs)).Counts p n (read + total (c.reading? (.command regs)).toList) := by
  have stays : regs.a ≠ 0 := by
    intro sets
    rw [period?, if_pos sets] at unset
    cases unset
  by_cases reads : regs.a = 1
  · have answer : c.interrupt regs = ({ c with ticks := 0 }, { regs with c := c.ticks }) := by
      have started : c.period ≠ 0 := h.period_eq ▸ runs
      rw [interrupt, reads]
      simp only [started, if_false]
    simp only [perform, reading?, answer, if_pos reads]
    refine ⟨h.period_eq, h.elapsed_eq, ?_⟩
    have kept := h.ticks_modEq
    simpa [total] using kept
  · have others : (c.interrupt regs).1 = { c with message := (message? (.command regs)).getD c.message } := by
      simp only [interrupt, message?]
      split <;> simp_all
    simp only [perform, reading?, others, if_neg reads]
    exact ⟨h.period_eq, h.elapsed_eq, h.ticks_modEq⟩

/-- Until the period is set again, cycles are counted and ticks are kept or read. -/
theorem Counts.performAll (h : c.Counts p n read) (runs : p ≠ 0) {calls : List ClockCall}
    (unset : ∀ call ∈ calls, period? call = none) :
    (c.performAll calls).Counts p (n + calls.count .cycle) (read + total (c.readings calls)) := by
  induction calls generalizing c n read with
  | nil => exact h
  | cons call calls ih =>
    have later : ∀ call ∈ calls, period? call = none := fun other hother => unset other (List.mem_cons_of_mem _ hother)
    have sum : total (c.readings (call :: calls)) =
        total (c.reading? call).toList + total ((c.perform call).readings calls) := by
      simp [total, readings]
    rw [sum, ← Nat.add_assoc]
    cases call with
    | cycle =>
      have rest := ih (h.cycle runs) later
      rw [List.count_cons_self]
      rwa [Nat.add_assoc, Nat.add_comm 1] at rest
    | command regs =>
      have rest := ih (h.command runs (unset _ (List.mem_cons_self ..))) later
      rwa [List.count_cons_of_ne (by simp)]

/-! ## Messages -/

theorem cycle_of_stopped (h : c.period = 0) : c.cycle = (c, none) := by rw [cycle, if_pos h]

/-- A message is raised where a period ends, if there is one. -/
theorem raised_of_counts (h : c.Counts p n read) (runs : p ≠ 0) :
    c.cycle.2 = if p.toNat ∣ n + 1 ∧ c.message ≠ 0 then some c.message else none := by
  have below : n % p.toNat < p.toNat := Nat.mod_lt n (toNat_pos runs)
  have ends : p.toNat ∣ n + 1 ↔ ¬ n % p.toNat + 1 < p.toNat := by
    rw [Nat.dvd_iff_mod_eq_zero, ← Nat.mod_add_mod]
    constructor
    · intro zero before
      rw [Nat.mod_eq_of_lt before] at zero
      omega
    · intro full
      have whole : n % p.toNat + 1 = p.toNat := by omega
      rw [whole, Nat.mod_self]
  have started : c.period ≠ 0 := h.period_eq ▸ runs
  rw [cycle, if_neg started, h.elapsed_eq, h.period_eq]
  by_cases before : n % p.toNat + 1 < p.toNat
  · rw [if_pos before, if_neg fun both => ends.mp both.1 before]
  · rw [if_neg before]
    by_cases silent : c.message = 0 <;> simp [ends.mpr before, silent]

end

/-- **A clock loses no tick and invents none.** Let a new clock be given any calls. Where the period is set to a number
that is not zero, and not set again, the ticks that were read since and those that are there make up the periods that
have gone by, the rest of the cycles is counted, and the next cycle raises the message that was set last, if it ends a
period. A clock that is stopped has no counts and raises nothing, and the count of cycles never leaves the words. -/
theorem ticks_conserved (calls : List ClockCall) :
    let c := ({} : Clock).performAll calls
    (last period? calls = 0 → c.elapsed = 0 ∧ c.ticks = 0 ∧ c.cycle = (c, none)) ∧
      c.elapsed + 1 < Word.count ∧
      ∀ before regs since, calls = before ++ .command regs :: since → regs.a = 0 → regs.x ≠ 0 →
        (∀ call ∈ since, period? call = none) →
        let n := since.count .cycle
        let read := (({} : Clock).performAll (before ++ [.command regs])).readings since
        total read + c.ticks.toNat ≡ n / regs.x.toNat [MOD Word.count] ∧ c.elapsed = n % regs.x.toNat ∧
          c.cycle.2 = if regs.x.toNat ∣ n + 1 ∧ last message? calls ≠ 0 then some (last message? calls) else none := by
  intro c
  have regular : c.Regular := regular_performAll (by exact ⟨rfl, rfl⟩) calls
  obtain ⟨period, message⟩ := set_performAll calls
  refine ⟨?_, elapsed_succ_lt regular, ?_⟩
  · intro unset
    have stopped : c.period = 0 := period.trans unset
    rw [Regular, if_pos stopped] at regular
    exact ⟨regular.1, regular.2, cycle_of_stopped stopped⟩
  · intro before regs since split sets runs unset n read
    let start := ({} : Clock).performAll (before ++ [.command regs])
    have fresh : start.Counts regs.x 0 0 := by
      have first : start = { ({} : Clock).performAll before with period := regs.x, elapsed := 0, ticks := 0 } := by
        show ({} : Clock).performAll (before ++ [.command regs]) = _
        rw [performAll_append]
        show ((({} : Clock).performAll before).interrupt regs).1 = _
        simp only [interrupt, sets]
      rw [first]
      exact ⟨rfl, (Nat.zero_mod _).symm, by simp [Nat.ModEq]⟩
    have here : c = start.performAll since := by
      show ({} : Clock).performAll calls = _
      rw [split, ← performAll_append, List.append_assoc, List.singleton_append]
    have counts := fresh.performAll runs unset
    rw [← here, Nat.zero_add, Nat.zero_add] at counts
    refine ⟨counts.ticks_modEq, counts.elapsed_eq, ?_⟩
    rw [← message]
    exact raised_of_counts counts runs

end Clock

end Dcpu16
