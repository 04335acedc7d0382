import Dcpu16.Text
import Mathlib.Data.List.Forall2

/-!
# Results that are not errors

What follows if a sequence of steps, each of which may fail, does not fail.
-/

namespace Dcpu16

variable {ε α β : Type}

theorem bind_eq_ok {x : Except ε α} {f : α → Except ε β} {b : β} :
    x >>= f = .ok b ↔ ∃ a, x = .ok a ∧ f a = .ok b := by
  cases x <;> simp [bind, Except.bind]

theorem isOk_iff {x : Except ε α} : x.isOk ↔ ∃ a, x = .ok a := by
  cases x <;> simp [Except.isOk, Except.toBool]

theorem eq_ok_of_toOption {x : Except ε α} {a : α} (h : x.toOption = some a) : x = .ok a := by
  cases x with
  | error _ => cases h
  | ok _ => cases h; rfl

theorem isOk_eq_isSome (x : Except ε α) : x.isOk = x.toOption.isSome := by
  cases x <;> rfl

theorem toOption_bind (x : Except ε α) (f : α → Except ε β) :
    (x >>= f).toOption = x.toOption.bind fun a => (f a).toOption := by
  cases x <;> rfl

section mapM
variable {f : α → Except ε β} {g : α → β} {xs ys : List α} {us : List β}

theorem mapM_eq_ok_of_forall (h : ∀ x ∈ xs, f x = .ok (g x)) : xs.mapM f = .ok (xs.map g) := by
  induction xs with
  | nil => rfl
  | cons x xs ih =>
    rw [List.mapM_cons, h x (List.mem_cons_self ..), ih fun y hy => h y (List.mem_cons_of_mem _ hy)]
    rfl

theorem mapM_mapError {δ : Type} (g : ε → δ) (f : α → Except ε β) (xs : List α) :
    (xs.mapM f).mapError g = xs.mapM fun x => (f x).mapError g := by
  induction xs with
  | nil => rfl
  | cons x xs ih =>
    rw [List.mapM_cons, List.mapM_cons, ← ih]
    cases f x with
    | error e => rfl
    | ok v => cases xs.mapM f <;> rfl

theorem toOption_mapM (f : α → Except ε β) (xs : List α) :
    (xs.mapM f).toOption = xs.mapM fun x => (f x).toOption := by
  induction xs with
  | nil => rfl
  | cons x xs ih =>
    rw [List.mapM_cons, List.mapM_cons, ← ih]
    cases f x with
    | error e => rfl
    | ok v => cases xs.mapM f <;> rfl

theorem mapM_nil_eq_ok : ([] : List α).mapM f = .ok us ↔ us = [] := by
  rw [List.mapM_nil]
  exact ⟨fun h => (Except.ok.inj h).symm, fun h => h ▸ rfl⟩

theorem mapM_cons_eq_ok {x : α} :
    (x :: xs).mapM f = .ok us ↔ ∃ v vs, f x = .ok v ∧ xs.mapM f = .ok vs ∧ us = v :: vs := by
  rw [List.mapM_cons, bind_eq_ok]
  constructor
  · rintro ⟨v, hv, h⟩
    obtain ⟨vs, hvs, h⟩ := bind_eq_ok.mp h
    exact ⟨v, vs, hv, hvs, (Except.ok.inj h).symm⟩
  · rintro ⟨v, vs, hv, hvs, rfl⟩
    exact ⟨v, hv, bind_eq_ok.mpr ⟨vs, hvs, rfl⟩⟩

theorem mapM_cons_eq_error {x : α} {e : ε} :
    (x :: xs).mapM f = .error e ↔ f x = .error e ∨ ∃ v, f x = .ok v ∧ xs.mapM f = .error e := by
  rw [List.mapM_cons]
  cases f x with
  | error _ => simp [bind, Except.bind]
  | ok v => cases xs.mapM f <;> simp [bind, Except.bind, pure, Except.pure]

theorem mapM_append_eq_ok :
    (xs ++ ys).mapM f = .ok us ↔ ∃ vs ws, xs.mapM f = .ok vs ∧ ys.mapM f = .ok ws ∧ us = vs ++ ws := by
  rw [List.mapM_append, bind_eq_ok]
  constructor
  · rintro ⟨vs, hvs, h⟩
    obtain ⟨ws, hws, h⟩ := bind_eq_ok.mp h
    exact ⟨vs, ws, hvs, hws, (Except.ok.inj h).symm⟩
  · rintro ⟨vs, ws, hvs, hws, rfl⟩
    exact ⟨vs, hvs, bind_eq_ok.mpr ⟨ws, hws, rfl⟩⟩

theorem mapM_eq_ok_iff : xs.mapM f = .ok us ↔ List.Forall₂ (f · = .ok ·) xs us := by
  induction xs generalizing us with
  | nil => rw [mapM_nil_eq_ok, List.forall₂_nil_left_iff]
  | cons x xs ih =>
    rw [mapM_cons_eq_ok, List.forall₂_cons_left_iff]
    constructor
    · rintro ⟨v, vs, hv, hvs, rfl⟩
      exact ⟨v, vs, hv, ih.mp hvs, rfl⟩
    · rintro ⟨v, vs, hv, hvs, rfl⟩
      exact ⟨v, vs, hv, ih.mpr hvs, rfl⟩

theorem length_of_mapM_eq_ok (h : xs.mapM f = .ok us) : us.length = xs.length := by
  induction xs generalizing us with
  | nil => rw [mapM_nil_eq_ok.mp h, List.length_nil, List.length_nil]
  | cons x xs ih =>
    obtain ⟨v, vs, -, hvs, rfl⟩ := mapM_cons_eq_ok.mp h
    rw [List.length_cons, List.length_cons, ih hvs]

theorem mem_of_mapM_eq_ok {u : β} (h : xs.mapM f = .ok us) (hu : u ∈ us) : ∃ x ∈ xs, f x = .ok u := by
  induction xs generalizing us with
  | nil =>
    rw [mapM_nil_eq_ok.mp h] at hu
    cases hu
  | cons x xs ih =>
    obtain ⟨v, vs, hv, hvs, rfl⟩ := mapM_cons_eq_ok.mp h
    rcases List.mem_cons.mp hu with rfl | hu
    · exact ⟨x, List.mem_cons_self .., hv⟩
    · obtain ⟨y, hy, hyu⟩ := ih hvs hu
      exact ⟨y, List.mem_cons_of_mem _ hy, hyu⟩

end mapM

end Dcpu16
