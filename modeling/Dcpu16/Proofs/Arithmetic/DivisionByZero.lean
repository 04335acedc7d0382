import Dcpu16.Proofs.Arithmetic

/-!
# Division by zero

An operation that divides by zero stores zero. The two that compute a quotient, whose fraction goes to EX, clear EX as
well; the two that compute a remainder leave in EX what an earlier instruction put there (`division_by_zero`), so EX is
not always zero behind a division by zero (`remainder_keeps_excess`).
-/

namespace Dcpu16

/-- The operations that divide. -/
def BasicOp.divides : BasicOp → Bool
  | div | dvi | mod | mdi => true
  | _ => false

/-- The operations that divide and compute a quotient; its fraction goes to EX. -/
def BasicOp.hasQuotient : BasicOp → Bool
  | div | dvi => true
  | _ => false

theorem BasicOp.effect_zero {op : BasicOp} (divides : op.divides) (b ex : Word) :
    op.effect b 0 ex = if op.hasQuotient then .storeEx 0 0 else .store 0 := by
  cases op with
  | div | dvi | mod | mdi => rfl
  | _ => cases divides

namespace Core

/-- **What a division by zero leaves behind**: zero at a destination that is no literal, and in EX zero or the word that
stood there. Every other place is as it was once the operands were resolved. -/
structure DividesByZero (s : Core) (op : BasicOp) (b a : Operand) (t : Core) : Prop where
  stored (place : ∀ v, s.destination b a ≠ .literal v) : t.load (s.destination b a) = 0
  excess : t.regs.ex = if op.hasQuotient ∨ s.destination b a = .ex then 0 else s.regs.ex
  others {l : Location} (other : l ≠ s.destination b a) (apart : l ≠ .ex) : t.load l = (s.prepared b a).load l

theorem load_store_zero {s : Core} {l : Location} (place : ∀ v, l ≠ .literal v) : (s.store l 0).load l = 0 := by
  rw [load_store]
  cases l with
  | literal v => exact absurd rfl (place v)
  | _ => rfl

theorem ex_store_zero {s : Core} (l : Location) : (s.store l 0).regs.ex = if l = .ex then 0 else s.regs.ex := by
  split
  · next ex => rw [ex]; rfl
  · next other => exact load_store_of_ne (k := .ex) other

theorem dividesByZero_of_perform {s t : Core} {op : BasicOp} {b a : Operand}
    (h : t = (s.prepared b a).perform (s.destination b a) (if op.hasQuotient then .storeEx 0 0 else .store 0)) :
    s.DividesByZero op b a t := by
  cases quotient : op.hasQuotient with
  | true =>
    rw [quotient, if_pos rfl, perform] at h
    subst h
    refine ⟨fun place => ?_, by rw [if_pos (.inl quotient)]; rfl, fun other apart => ?_⟩
    · by_cases ex : s.destination b a = .ex
      · rw [ex]
        rfl
      · rw [load_store_of_ne (Ne.symm ex), load_store_zero place]
    · rw [load_store_of_ne apart.symm, load_store_of_ne other.symm]
  | false =>
    rw [quotient, if_neg Bool.false_ne_true, perform] at h
    subst h
    refine ⟨load_store_zero, ?_, fun other _ => load_store_of_ne other.symm⟩
    rw [ex_store_zero, ex_prepared, quotient]
    simp

end Core

/-- **Division by zero gives zero**, whatever the operands are. -/
theorem division_by_zero {s : Core} {op : BasicOp} {b a : Operand} (divides : op.divides) (zero : s.source a = 0) :
    s.DividesByZero op b a (s.basic op b a).1 := by
  apply Core.dividesByZero_of_perform
  rw [Core.fst_basic, zero, Core.applyBasic, BasicOp.effect_zero divides]
  split
  · next failed => split at failed <;> cases failed
  · rfl

/-- A core whose EX holds a word that an earlier instruction left there. -/
def stale : Core where
  regs := { a := 7, sp := 1, ex := 9 }
  mem := Memory.blank.write 0 0x8000

/-- A quotient by zero, pushed. -/
theorem division_by_zero_of_stale :
    stale.destination .push (.register .b) = .memory 0 ∧
      (stale.basic .dvi .push (.register .b)).1.load (.memory 0) = 0 ∧
      (stale.basic .dvi .push (.register .b)).1.regs.ex = 0 := by
  have place : stale.destination .push (.register .b) = .memory 0 := rfl
  have left : stale.DividesByZero .dvi .push (.register .b) _ := division_by_zero rfl rfl
  have stored := left.stored (by rw [place]; rintro v ⟨⟩)
  rw [place] at stored
  exact ⟨place, stored, left.excess⟩

/-- **A remainder by zero leaves EX alone**, so that EX is not zero behind every division by zero. -/
theorem remainder_keeps_excess :
    ¬ ∀ (s : Core) (op : BasicOp) (b a : Operand), op.divides → s.source a = 0 →
      (s.basic op b a).1.regs.ex = 0 ∧
        ((∀ v, s.destination b a ≠ .literal v) → (s.basic op b a).1.load (s.destination b a) = 0) := by
  intro rule
  have excess : (stale.basic .mod (.register .a) (.register .b)).1.regs.ex = 9 := rfl
  have cleared := (rule stale .mod (.register .a) (.register .b) rfl rfl).1
  rw [excess] at cleared
  cases cleared

end Dcpu16
