import Dcpu16.Assembly.Argument
import Dcpu16.Proofs.Text.Parts

/-!
# Terms of a sum in brackets

How a text in brackets is found, and how it is split at its signs. A sign is a part of a term as long as there are only
blanks before it, and ends the term otherwise. Blanks around the text make no difference (`terms_trim`).
-/

namespace Dcpu16

namespace Argument

/-! ## Brackets -/

theorem trimmed_bracketed (inner : Text) : Trimmed ('[' :: inner ++ [']']) :=
  Trimmed.append_append (t := ['[']) (u := [']']) (by decide) (by decide) (by simp) (by simp) inner

theorem parse_bracketed (pos : Position) (inner : Text) :
    parse pos ('[' :: inner ++ [']']) = parseMemory pos inner := by
  have inside : bracketed? ('[' :: inner ++ [']']) = some inner := by simp [bracketed?]
  rw [parse, trim_of_trimmed (trimmed_bracketed inner)]
  simp only [inside]

/-! ## Signs -/

section go
variable (negative : Bool) (term : Text) (done : List (Bool × Text))

theorem terms_go_cons {c : Char} (hp : c ≠ '+') (hm : c ≠ '-') (t : Text) :
    terms.go negative term done (c :: t) = terms.go negative (c :: term) done t := by
  have unsigned : ((c = '+' || c = '-') && !term.all isBlank) = false := by simp [hp, hm]
  rw [terms.go, unsigned]
  simp only [Bool.false_eq_true, if_false]

/-- A text without signs belongs to the term. -/
theorem terms_go_append {part : Text} (hp : '+' ∉ part) (hm : '-' ∉ part) (t : Text) :
    terms.go negative term done (part ++ t) = terms.go negative (part.reverse ++ term) done t := by
  induction part generalizing term with
  | nil => rfl
  | cons c cs ih =>
    have plus : c ≠ '+' := fun e => hp (e ▸ List.mem_cons_self ..)
    have minus : c ≠ '-' := fun e => hm (e ▸ List.mem_cons_self ..)
    rw [List.cons_append, terms_go_cons _ _ _ plus minus, ih _ (fun h => hp (List.mem_cons_of_mem _ h))
      fun h => hm (List.mem_cons_of_mem _ h), List.reverse_cons, List.append_assoc]
    rfl

/-- A sign behind a term ends it. -/
theorem terms_go_sign {c : Char} (hc : c = '+' ∨ c = '-') (h : term.all isBlank = false) (t : Text) :
    terms.go negative term done (c :: t) =
      terms.go (c = '-') [] ((negative, trim term.reverse) :: done) t := by
  rw [terms.go]
  rcases hc with rfl | rfl <;> simp [h]

/-- A sign with blanks before it belongs to the term. -/
theorem terms_go_own {c : Char} (h : term.all isBlank) (t : Text) :
    terms.go negative term done (c :: t) = terms.go negative (c :: term) done t := by
  rw [terms.go]
  simp [h]

/-- The last term keeps its minus, unless it is the only one. -/
theorem terms_go_nil (h : done = [] → ∀ rest, trim term.reverse ≠ '-' :: rest) :
    terms.go negative term done [] = ((negative, trim term.reverse) :: done).reverse := by
  unfold terms.go
  split
  · next minus => exact absurd minus (h rfl _)
  · rfl

/-- The terms that are done come first. -/
theorem terms_go_done (t : Text) : ∃ parts, terms.go negative term done t = done.reverse ++ parts := by
  induction t generalizing negative term done with
  | nil =>
    unfold terms.go
    split
    · exact ⟨_, rfl⟩
    · exact ⟨_, List.reverse_cons ..⟩
  | cons c cs ih =>
    rw [terms.go]
    split
    · obtain ⟨parts, found⟩ := ih (c = '-') [] ((negative, trim term.reverse) :: done)
      rw [found, List.reverse_cons, List.append_assoc]
      exact ⟨_, rfl⟩
    · exact ih ..

end go

/-! ## Blanks around -/

theorem ne_sign_of_blank {gap : Text} (h : Blank gap) : '+' ∉ gap ∧ '-' ∉ gap :=
  ⟨fun hp => absurd (h _ hp) (by decide), fun hm => absurd (h _ hm) (by decide)⟩

/-- Blanks in front of a term are not seen. -/
theorem terms_go_before {gap : Text} (h : Blank gap) (negative : Bool) (term : Text) (done : List (Bool × Text))
    (t : Text) : terms.go negative (term ++ gap) done t = terms.go negative term done t := by
  have trimmed (u : Text) : trim (u ++ gap).reverse = trim u.reverse := by
    rw [List.reverse_append]
    exact trim_append_left (fun c hc => h c (List.mem_reverse.mp hc)) _
  have blank : (term ++ gap).all isBlank = term.all isBlank := by
    rw [List.all_append, List.all_eq_true.mpr h, Bool.and_true]
  induction t generalizing negative term done with
  | nil =>
    unfold terms.go
    rw [trimmed]
  | cons c cs ih =>
    rw [terms.go, terms.go, blank, trimmed]
    split
    · rfl
    · exact ih negative (c :: term) done (by simpa using congrArg (isBlank c && ·) blank)

/-- Blanks behind the last term are not seen. -/
theorem terms_go_behind {gap : Text} (h : Blank gap) (negative : Bool) (term : Text) (done : List (Bool × Text))
    (t : Text) : terms.go negative term done (t ++ gap) = terms.go negative term done t := by
  induction t generalizing negative term done with
  | nil =>
    have unsigned := ne_sign_of_blank h
    have blanks := terms_go_append negative term done unsigned.1 unsigned.2 []
    have trimmed : trim (gap.reverse ++ term).reverse = trim term.reverse := by
      rw [List.reverse_append, List.reverse_reverse]
      exact trim_append_right h _
    rw [List.append_nil] at blanks
    rw [List.nil_append, blanks]
    unfold terms.go
    rw [trimmed]
  | cons c cs ih =>
    rw [List.cons_append, terms.go, terms.go]
    split
    · exact ih ..
    · exact ih ..

/-- The terms of a text are those between the blanks around it. -/
theorem terms_trim (t : Text) : terms (trim t) = terms t := by
  obtain ⟨before, behind, hb, he, whole⟩ := exists_gaps t
  have unsigned := ne_sign_of_blank hb
  have front : Blank before.reverse := fun c hc => hb c (List.mem_reverse.mp hc)
  calc terms (trim t)
    _ = terms.go false ([] ++ before.reverse) [] (trim t) := (terms_go_before front ..).symm
    _ = terms.go false (before.reverse ++ []) [] (trim t ++ behind) := by
      rw [terms_go_behind he, List.append_nil, List.nil_append]
    _ = terms (before ++ (trim t ++ behind)) := (terms_go_append _ _ _ unsigned.1 unsigned.2 _).symm
    _ = terms t := by rw [← whole]

/-- Blanks at the ends are not among the visible characters. -/
theorem filter_trim (t : Text) : (trim t).filter (!isBlank ·) = t.filter (!isBlank ·) := by
  obtain ⟨before, behind, hb, he, whole⟩ := exists_gaps t
  have none {gap : Text} (h : Blank gap) : gap.filter (!isBlank ·) = [] :=
    List.filter_eq_nil_iff.mpr fun c hc => by simp [h c hc]
  have both := congrArg (List.filter (!isBlank ·)) whole
  rw [List.filter_append, List.filter_append, none hb, none he, List.nil_append, List.append_nil] at both
  exact both.symm

end Argument

end Dcpu16
