import Dcpu16.Proofs.Text.Parts

/-!
# Quotes in a line

A reader of a line keeps track of whether it is in a string. What comments and commas are is decided outside strings
only, so the search for a comment and the splitting at commas pass over every text that has its separators in strings
and closes these (`stripComment_append`, `splitItems_joined`). Both readers keep track in the same way.
-/

namespace Dcpu16

namespace Quoting

/-- Where a reader is behind a text. -/
def behind (q : Quoting) (t : Text) : Quoting := t.foldl next q

/-- Whether each occurrence of a separator in a text is in a string. -/
def Hides (sep : Char) : Quoting → Text → Prop
  | _, [] => True
  | q, c :: cs => ¬ (q = .outside ∧ c = sep) ∧ Hides sep (q.next c) cs

instance decidableHides (sep : Char) : (q : Quoting) → (t : Text) → Decidable (Hides sep q t)
  | _, [] => inferInstanceAs (Decidable True)
  | q, c :: cs =>
    have := decidableHides sep (q.next c) cs
    inferInstanceAs (Decidable (_ ∧ _))

/-- **A text that has its separators in strings and closes its strings.** -/
structure Closed (sep : Char) (t : Text) : Prop where
  hidden : Hides sep .outside t
  behind_eq : outside.behind t = outside

instance (sep : Char) (t : Text) : Decidable (Closed sep t) :=
  decidable_of_iff (Hides sep .outside t ∧ outside.behind t = outside) ⟨fun h => ⟨h.1, h.2⟩, fun h => ⟨h.1, h.2⟩⟩

variable {sep : Char} {q : Quoting} {t u : Text}

theorem behind_append (q : Quoting) (t u : Text) : q.behind (t ++ u) = (q.behind t).behind u := List.foldl_append

theorem hides_append : Hides sep q (t ++ u) ↔ Hides sep q t ∧ Hides sep (q.behind t) u := by
  induction t generalizing q with
  | nil => exact (and_iff_right trivial).symm
  | cons c cs ih => exact (and_congr_right fun _ => ih).trans and_assoc.symm

theorem hides_of_not_mem (h : sep ∉ t) : Hides sep q t := by
  induction t generalizing q with
  | nil => trivial
  | cons c cs ih =>
    exact ⟨fun both => h (both.2 ▸ List.mem_cons_self ..), ih fun hs => h (List.mem_cons_of_mem _ hs)⟩

theorem Closed.append (ht : Closed sep t) (hu : Closed sep u) : Closed sep (t ++ u) where
  hidden := hides_append.mpr ⟨ht.hidden, ht.behind_eq.symm ▸ hu.hidden⟩
  behind_eq := by rw [behind_append, ht.behind_eq, hu.behind_eq]

/-- A text without quotes has no strings to close. -/
theorem closed_of_not_mem (hq : '"' ∉ t) (hs : sep ∉ t) : Closed sep t where
  hidden := hides_of_not_mem hs
  behind_eq := by
    clear hs
    induction t with
    | nil => rfl
    | cons c cs ih =>
      have plain : c ≠ '"' := fun quote => hq (quote ▸ List.mem_cons_self ..)
      have stays : outside.next c = outside := if_neg plain
      rw [behind, List.foldl_cons, stays]
      exact ih fun h => hq (List.mem_cons_of_mem _ h)

theorem closed_of_blank {gap : Text} (hg : Blank gap) (hs : isBlank sep = false) : Closed sep gap :=
  closed_of_not_mem (fun h => absurd (hg _ h) (by decide)) fun h => by simp [hg _ h] at hs

/-- Texts that are joined by another separator close what each of them closes. -/
theorem closed_intercalate {other : Char} {parts : List Text} (ho : Closed sep [other])
    (h : ∀ part ∈ parts, Closed sep part) : Closed sep ([other].intercalate parts) := by
  induction parts with
  | nil => exact ⟨trivial, rfl⟩
  | cons part parts ih =>
    have own := h part (List.mem_cons_self ..)
    cases parts with
    | nil => rwa [List.intercalate_singleton]
    | cons next parts =>
      rw [List.intercalate_cons_cons, List.append_assoc]
      exact own.append (ho.append (ih fun u hu => h u (List.mem_cons_of_mem _ hu)))

end Quoting

open Quoting

/-! ## Comments -/

section
variable {q : Quoting} {t : Text}

theorem stripComment_go_append (h : Hides ';' q t) (kept u : Text) :
    stripComment.go q kept (t ++ u) = stripComment.go (q.behind t) (t.reverse ++ kept) u := by
  induction t generalizing q kept with
  | nil => rfl
  | cons c cs ih =>
    rw [List.cons_append, stripComment.go, if_neg h.1, ih h.2, List.reverse_cons, List.append_assoc]
    rfl

/-- What has been kept comes first. -/
theorem stripComment_go_kept (q : Quoting) (kept t : Text) :
    stripComment.go q kept t = kept.reverse ++ stripComment.go q [] t := by
  induction t generalizing q kept with
  | nil => exact (List.append_nil _).symm
  | cons c cs ih =>
    rw [stripComment.go, stripComment.go]
    split
    · exact (List.append_nil _).symm
    · rw [ih, ih _ [c], List.reverse_cons, List.append_assoc]
      rfl

theorem exists_comment_go (q : Quoting) (t : Text) : Hides ';' q (stripComment.go q [] t) ∧ ∃ comment,
    t = stripComment.go q [] t ++ comment ∧
      (comment = [] ∨ q.behind (stripComment.go q [] t) = outside ∧ ∃ text, comment = ';' :: text) := by
  induction t generalizing q with
  | nil => exact ⟨trivial, [], rfl, .inl rfl⟩
  | cons c cs ih =>
    rw [stripComment.go]
    split
    · next found => exact ⟨trivial, c :: cs, rfl, .inr ⟨found.1, cs, by rw [found.2]⟩⟩
    · next other =>
      obtain ⟨hidden, comment, whole, ends⟩ := ih (q.next c)
      have kept : stripComment.go (q.next c) [c] cs = c :: stripComment.go (q.next c) [] cs :=
        stripComment_go_kept (q.next c) [c] cs
      rw [kept]
      exact ⟨⟨other, hidden⟩, comment, congrArg (c :: ·) whole, ends⟩

/-- **A line is what is kept of it and maybe a comment**, which is outside strings. -/
theorem exists_comment (t : Text) : Hides ';' outside (stripComment t) ∧ ∃ comment, t = stripComment t ++ comment ∧
    (comment = [] ∨ outside.behind (stripComment t) = outside ∧ ∃ text, comment = ';' :: text) :=
  exists_comment_go outside t

theorem subset_splitLine (t : Text) : (splitLine t).2 ⊆ t := by
  obtain ⟨-, comment, whole, -⟩ := exists_comment t
  intro c hc
  exact whole ▸ List.mem_append_left _ (mem_of_mem_trim ((suffix_splitLabels _).subset hc))

/-- Nothing, or a comment. -/
def IsComment (t : Text) : Prop := ∀ c ∈ t.head?, c = ';'

instance (t : Text) : Decidable (IsComment t) := Option.decidableForallMem t.head?

theorem stripComment_of_isComment (h : IsComment t) : stripComment t = [] := by
  cases t with
  | nil => rfl
  | cons c cs =>
    rw [stripComment, stripComment.go, if_pos ⟨rfl, h c rfl⟩]
    rfl

/-- **The search for a comment passes over a text that closes its strings**, and goes on behind it as in a line of its
own. -/
theorem stripComment_append (h : Closed ';' t) (u : Text) : stripComment (t ++ u) = t ++ stripComment u := by
  rw [stripComment, stripComment_go_append h.hidden, h.behind_eq, stripComment_go_kept, List.append_nil,
    List.reverse_reverse]
  rfl

end

/-! ## Items -/

section
variable {q : Quoting} {t : Text}

theorem splitItems_go_hides (h : Hides ',' q t) (item : Text) (done : List Text) (u : Text) :
    splitItems.go q item done (t ++ u) = splitItems.go (q.behind t) (t.reverse ++ item) done u := by
  induction t generalizing q item with
  | nil => rfl
  | cons c cs ih =>
    rw [List.cons_append, splitItems.go, if_neg h.1, ih h.2, List.reverse_cons, List.append_assoc]
    rfl

/-- Blanks in front of an item are not seen. -/
theorem splitItems_go_before {gap : Text} (hg : Blank gap) (q : Quoting) (item : Text) (done : List Text) (t : Text) :
    splitItems.go q (item ++ gap) done t = splitItems.go q item done t := by
  have trimmed (u : Text) : trim (u ++ gap).reverse = trim u.reverse := by
    rw [List.reverse_append]
    exact trim_append_left (fun c hc => hg c (List.mem_reverse.mp hc)) _
  induction t generalizing q item done with
  | nil => rw [splitItems.go, splitItems.go, trimmed]
  | cons c cs ih =>
    rw [splitItems.go, splitItems.go, trimmed]
    split
    · rfl
    · exact ih (q.next c) (c :: item) done

/-- Blanks behind the last item are not seen. -/
theorem splitItems_go_behind {gap : Text} (hg : Blank gap) (q : Quoting) (item : Text) (done : List Text) (t : Text) :
    splitItems.go q item done (t ++ gap) = splitItems.go q item done t := by
  induction t generalizing q item done with
  | nil =>
    have commas : Hides ',' q gap := hides_of_not_mem fun hc => absurd (hg _ hc) (by decide)
    have last := splitItems_go_hides commas item done []
    have trimmed : trim (gap.reverse ++ item).reverse = trim item.reverse := by
      rw [List.reverse_append, List.reverse_reverse]
      exact trim_append_right hg _
    rw [List.append_nil] at last
    rw [List.nil_append, last, splitItems.go, splitItems.go, trimmed]
  | cons c cs ih =>
    rw [List.cons_append, splitItems.go, splitItems.go]
    split
    · exact ih ..
    · exact ih ..

/-- The items of a text are those between the blanks around it. -/
theorem splitItems_trim (t : Text) : splitItems (trim t) = splitItems t := by
  obtain ⟨before, behind, hb, he, whole⟩ := exists_gaps t
  have front : Blank before.reverse := fun c hc => hb c (List.mem_reverse.mp hc)
  have closed : Closed ',' before := closed_of_blank hb (by decide)
  have blank : t.all isBlank = (trim t).all isBlank := by
    rw [whole, List.all_append, List.all_append, List.all_eq_true.mpr hb, List.all_eq_true.mpr he, ← whole,
      Bool.true_and, Bool.and_true]
  have items : splitItems.go .outside [] [] t = splitItems.go .outside [] [] (trim t) := by
    calc splitItems.go .outside [] [] t
      _ = splitItems.go .outside [] [] (before ++ (trim t ++ behind)) := by rw [← whole]
      _ = splitItems.go .outside ([] ++ before.reverse) [] (trim t ++ behind) := by
        rw [splitItems_go_hides closed.hidden, closed.behind_eq, List.append_nil, List.nil_append]
      _ = splitItems.go .outside [] [] (trim t) := by rw [splitItems_go_before front, splitItems_go_behind he]
  rw [splitItems, splitItems, items, blank]

end

theorem splitItems_go_joined {parts : List Text} (h : ∀ part ∈ parts, Closed ',' part) (hne : parts ≠ [])
    (done : List Text) :
    splitItems.go .outside [] done ([','].intercalate parts) = done.reverse ++ parts.map trim := by
  induction parts generalizing done with
  | nil => exact absurd rfl hne
  | cons part parts ih =>
    obtain ⟨hidden, closed⟩ := h part (List.mem_cons_self ..)
    have own (u : Text) := splitItems_go_hides hidden [] done u
    rw [closed, List.append_nil] at own
    cases parts with
    | nil =>
      have last := own []
      rw [List.append_nil] at last
      rw [List.intercalate_singleton, last, splitItems.go, List.reverse_reverse, List.reverse_cons]
      rfl
    | cons next parts =>
      rw [List.intercalate_cons_cons, List.append_assoc, own, List.singleton_append, splitItems.go,
        if_pos ⟨rfl, rfl⟩, ih (fun u hu => h u (List.mem_cons_of_mem _ hu)) (List.cons_ne_nil _ _),
        List.reverse_reverse, List.reverse_cons, List.append_assoc]
      rfl

/-- **The items of a text are the parts that it is joined from**, if each of them closes its strings. -/
theorem splitItems_joined {parts : List Text} (h : ∀ part ∈ parts, Closed ',' part)
    (visible : ∃ part ∈ parts, part.all isBlank = false) : splitItems ([','].intercalate parts) = parts.map trim := by
  obtain ⟨part, hpart, seen⟩ := visible
  have blank : ([','].intercalate parts).all isBlank = false := by
    obtain ⟨c, hc, shown⟩ := List.all_eq_false.mp seen
    exact List.all_eq_false.mpr ⟨c, mem_intercalate hpart hc, shown⟩
  rw [splitItems, blank]
  exact splitItems_go_joined h (List.ne_nil_of_mem hpart) []

end Dcpu16
