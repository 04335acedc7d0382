import Dcpu16.Proofs.Device.Drive

/-!
# What a floppy drive raises

A drive remembers whether its disk or the kept error changed since the last cycle. A cycle raises the message if there
was such a change and the message is not zero then, and no change is raised twice (`raises_changes`). The message at the
time of the change does not count: one that is made in silence, while the message is zero, is raised all the same if
there is a message by the next cycle (`raises_silent_change`).
-/

namespace Dcpu16.Floppy

/-! ## Changes -/

/-- Whether a call changes the disk or the kept error. -/
def changes (f : Floppy) : DriveCall → Bool
  | .interrupt s => (f.interrupt s).1.error ≠ f.error
  | .insert _ => true
  | .eject => f.disk.isSome
  | .cycle => false

/-- For each change since the last cycle the message that was set when it was made, once a call is made. -/
def note (f : Floppy) (noted : List Word) : DriveCall → List Word
  | .cycle => []
  | call => if f.changes call then noted ++ [f.message] else noted

/-- For each change since the last cycle the message that was set when it was made, once calls are made. -/
def noteAll (f : Floppy) (noted : List Word) : List DriveCall → List Word
  | [] => noted
  | call :: calls => (f.perform call).noteAll (f.note noted call) calls

/-- How many calls change the disk or the kept error. -/
def changeCount (f : Floppy) : List DriveCall → Nat
  | [] => 0
  | call :: calls => (f.changes call).toNat + (f.perform call).changeCount calls

/-- How many cycles raise a message. -/
def raiseCount (f : Floppy) : List DriveCall → Nat
  | [] => 0
  | .cycle :: calls => f.cycle.2.isSome.toNat + f.cycle.1.raiseCount calls
  | call :: calls => (f.perform call).raiseCount calls

section
variable {f g : Floppy} {s t : Core}

theorem Response.changed_eq (h : f.Response s g t) : g.changed = (f.changed || g.error ≠ f.error) := by
  cases h with
  | poll | refused => simp [latch_eq, ne_comm]
  | message | read | write | unknown => simp [seek]

/-- Every call but a cycle remembers what it changes. -/
theorem changed_perform {call : DriveCall} (h : call ≠ .cycle) :
    (f.perform call).changed = (f.changed || f.changes call) := by
  cases call with
  | interrupt s => exact (f.response s).changed_eq
  | insert d => exact (Bool.or_true _).symm
  | eject => rfl
  | cycle => exact absurd rfl h

theorem note_of_ne {call : DriveCall} (h : call ≠ .cycle) (noted : List Word) :
    f.note noted call = if f.changes call then noted ++ [f.message] else noted := by
  cases call with
  | interrupt | insert | eject => rfl
  | cycle => exact absurd rfl h

/-- What a drive remembers is whether anything is noted. -/
theorem changed_performAll {noted : List Word} (h : f.changed = decide (noted ≠ [])) (calls : List DriveCall) :
    (f.performAll calls).changed = decide (f.noteAll noted calls ≠ []) := by
  induction calls generalizing f noted with
  | nil => exact h
  | cons call calls ih =>
    refine ih ?_
    by_cases cycle : call = .cycle
    · subst cycle
      rfl
    · rw [changed_perform cycle, note_of_ne cycle, h]
      cases f.changes call <;> simp

theorem cycle_raises : f.cycle.2.isSome.toNat ≤ f.changed.toNat := by
  unfold cycle
  cases f.changed <;> by_cases silent : f.message = 0 <;> simp [silent]

/-- What is raised was changed before. -/
theorem raiseCount_le (calls : List DriveCall) : f.raiseCount calls ≤ f.changed.toNat + f.changeCount calls := by
  induction calls generalizing f with
  | nil => exact Nat.zero_le _
  | cons call calls ih =>
    have rest := ih (f := f.perform call)
    by_cases cycle : call = .cycle
    · subst cycle
      have now := cycle_raises (f := f)
      have forgotten : (f.perform .cycle).changed.toNat = 0 := rfl
      simp only [raiseCount, changeCount, changes, perform] at rest forgotten ⊢
      omega
    · have remembered : (f.perform call).changed.toNat ≤ f.changed.toNat + (f.changes call).toNat := by
        rw [changed_perform cycle]
        cases f.changed <;> cases f.changes call <;> decide
      have quiet : f.raiseCount (call :: calls) = (f.perform call).raiseCount calls := by
        cases call with
        | interrupt | insert | eject => rfl
        | cycle => exact absurd rfl cycle
      rw [quiet, changeCount]
      omega

end

/-! ## Raising -/

/-- **A drive raises its changes.** Whatever is done to a new drive, its next cycle raises the message that is set then,
if it is not zero and anything changed since the last cycle. So it raises just the changes that were made with a message
set, unless all those since the last cycle were made in silence and a message is set by now. In all, no more is raised
than was changed. -/
theorem raises_changes (disk : Option Disk) (calls : List DriveCall) :
    let f := ({ disk } : Floppy).performAll calls
    let noted := ({ disk } : Floppy).noteAll [] calls
    f.cycle.2 = (if f.message ≠ 0 ∧ noted ≠ [] then some f.message else none) ∧
      ((f.cycle.2 = some f.message ↔ f.message ≠ 0 ∧ ∃ msg ∈ noted, msg ≠ 0) ↔
        ¬ (f.message ≠ 0 ∧ noted ≠ [] ∧ ∀ msg ∈ noted, msg = 0)) ∧
      ({ disk } : Floppy).raiseCount calls ≤ ({ disk } : Floppy).changeCount calls := by
  intro f noted
  have changed : f.changed = decide (noted ≠ []) := changed_performAll (f := { disk }) rfl calls
  have raised : f.cycle.2 = if f.message ≠ 0 ∧ noted ≠ [] then some f.message else none := by
    simp only [cycle, changed, decide_eq_true_eq, and_comm]
  refine ⟨raised, ?_, ?_⟩
  · rw [raised]
    have some_noted (h : ∃ msg ∈ noted, msg ≠ 0) : noted ≠ [] := by
      obtain ⟨msg, inside, -⟩ := h
      exact List.ne_nil_of_mem inside
    grind
  · have counted := raiseCount_le (f := { disk }) calls
    simpa using counted

/-- A disk is inserted while no message is set. The message is set before the next cycle, and that raises it. -/
theorem raises_silent_change :
    ¬ ∀ (disk : Option Disk) (calls : List DriveCall),
      let f := ({ disk } : Floppy).performAll calls
      f.cycle.2 = some f.message ↔ f.message ≠ 0 ∧ ∃ msg ∈ ({ disk } : Floppy).noteAll [] calls, msg ≠ 0 := by
  intro rule
  have raised := rule none [.insert (Disk.blank false), .interrupt { regs := { a := 1, x := 0x77 } }]
  obtain ⟨-, msg, noted, set⟩ := raised.mp rfl
  cases List.mem_singleton.mp noted
  exact set rfl

end Dcpu16.Floppy
