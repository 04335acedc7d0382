import Dcpu16.Assembly.Statement
import Mathlib.Data.List.TakeWhile

/-!
# Parts of a text

What trimming, splitting and the search for comments and labels do to texts that have no blanks at their ends and
none of the characters that separate. Texts put together with separators are taken apart into the same parts
(`splitOn_intercalate`, `splitItems_intercalate`).
-/

namespace Dcpu16

/-- Whether all characters of a text have a property is found by going through the text. -/
instance (priority := high) decidableForallMem {p : Char → Prop} [DecidablePred p] (t : Text) :
    Decidable (∀ c ∈ t, p c) := List.decidableBAll p t

/-! ## Trimming -/

/-- A text without blanks at either end. -/
def Trimmed (t : Text) : Prop := (∀ c ∈ t.head?, isBlank c = false) ∧ ∀ c ∈ t.getLast?, isBlank c = false

instance (t : Text) : Decidable (Trimmed t) :=
  decidable_of_iff (t.head?.all (!isBlank ·) ∧ t.getLast?.all (!isBlank ·)) <| by
    unfold Trimmed
    cases t.head? <;> cases t.getLast? <;> simp

theorem trimmed_of_forall {t : Text} (h : ∀ c ∈ t, isBlank c = false) : Trimmed t :=
  ⟨fun c hc => h c (List.mem_of_mem_head? hc), fun c hc => h c (List.mem_of_getLast? hc)⟩

theorem trimLeft_of_head {t : Text} (h : ∀ c ∈ t.head?, isBlank c = false) : trimLeft t = t := by
  cases t with
  | nil => rfl
  | cons c cs => simp [trimLeft, h c rfl]

theorem trim_of_trimmed {t : Text} (h : Trimmed t) : trim t = t := by
  have hr : ∀ c ∈ t.reverse.head?, isBlank c = false := by simpa using h.2
  rw [trim, trimLeft_of_head h.1, trimLeft_of_head hr, List.reverse_reverse]

theorem trim_cons_of_isBlank {c : Char} (h : isBlank c) (t : Text) : trim (c :: t) = trim t := by
  simp [trim, trimLeft, h]

/-- A text of blanks only. -/
def Blank (t : Text) : Prop := ∀ c ∈ t, isBlank c

instance (t : Text) : Decidable (Blank t) := by unfold Blank; infer_instance

theorem trimLeft_append {gap : Text} (h : Blank gap) (t : Text) : trimLeft (gap ++ t) = trimLeft t :=
  List.dropWhile_append_of_pos h

/-- Blanks in front are trimmed off. -/
theorem trim_append_left {gap : Text} (h : Blank gap) (t : Text) : trim (gap ++ t) = trim t := by
  rw [trim, trimLeft_append h, trim]

/-- Blanks behind are trimmed off. -/
theorem trim_append_right {gap : Text} (h : Blank gap) (t : Text) : trim (t ++ gap) = trim t := by
  have back : Blank gap.reverse := fun c hc => h c (List.mem_reverse.mp hc)
  induction t with
  | nil => simpa using trim_append_left h []
  | cons c cs ih =>
    cases hc : isBlank c with
    | true => rw [List.cons_append, trim_cons_of_isBlank hc, trim_cons_of_isBlank hc, ih]
    | false =>
      have visible (u : Text) : trimLeft (c :: u) = c :: u := trimLeft_of_head (by simp [hc])
      rw [trim, trim, List.cons_append, visible, visible, ← List.cons_append, List.reverse_append,
        trimLeft_append back]

theorem blank_takeWhile (t : Text) : Blank (t.takeWhile isBlank) := List.all_eq_true.mp List.all_takeWhile

/-- A text is its trimmed form between blanks. -/
theorem exists_gaps (t : Text) : ∃ before behind, Blank before ∧ Blank behind ∧ t = before ++ (trim t ++ behind) := by
  have front : t = t.takeWhile isBlank ++ trimLeft t := List.takeWhile_append_dropWhile.symm
  have back : (trimLeft t).reverse = (trimLeft t).reverse.takeWhile isBlank ++ trimLeft (trimLeft t).reverse :=
    List.takeWhile_append_dropWhile.symm
  refine ⟨t.takeWhile isBlank, ((trimLeft t).reverse.takeWhile isBlank).reverse, blank_takeWhile t, ?_, ?_⟩
  · exact fun c hc => blank_takeWhile _ c (List.mem_reverse.mp hc)
  · have whole := congrArg List.reverse back
    rw [List.reverse_reverse, List.reverse_append] at whole
    rwa [trim, ← whole]

theorem mem_of_mem_trim {t : Text} {c : Char} (h : c ∈ trim t) : c ∈ t := by
  obtain ⟨before, behind, -, -, whole⟩ := exists_gaps t
  exact whole ▸ List.mem_append_right _ (List.mem_append_left _ h)

theorem trimmed_trim (t : Text) : Trimmed (trim t) := by
  have front (u : Text) : ∀ c ∈ (trimLeft u).head?, isBlank c = false := by
    intro c hc
    have first := List.head?_dropWhile_not isBlank u
    rw [show (u.dropWhile isBlank).head? = some c from hc] at first
    simpa using first
  have last : ∀ c ∈ (trim t).getLast?, isBlank c = false := by
    rw [trim, List.getLast?_reverse]
    exact front _
  refine ⟨fun c hc => ?_, last⟩
  have back : (trimLeft t).reverse.takeWhile isBlank ++ trimLeft (trimLeft t).reverse = (trimLeft t).reverse :=
    List.takeWhile_append_dropWhile
  have whole := congrArg List.reverse back
  rw [List.reverse_append, List.reverse_reverse] at whole
  apply front t
  rw [← whole, List.head?_append, show (trimLeft (trimLeft t).reverse).reverse.head? = some c from hc]
  rfl

theorem all_isBlank_of_trimmed {t : Text} (h : Trimmed t) (hne : t ≠ []) : t.all isBlank = false := by
  cases t with
  | nil => exact absurd rfl hne
  | cons c cs => simp [h.1 c rfl]

/-- A text whose ends are those of trimmed texts is trimmed. -/
theorem Trimmed.append_append {t u : Text} (ht : Trimmed t) (hu : Trimmed u) (htne : t ≠ []) (hune : u ≠ [])
    (between : Text) : Trimmed (t ++ (between ++ u)) := by
  constructor
  · obtain ⟨c, cs, rfl⟩ := List.exists_cons_of_ne_nil htne
    exact ht.1
  · have last := hu.2
    rw [List.getLast?_eq_some_getLast hune] at last
    simpa [List.getLast?_append, List.getLast?_eq_some_getLast hune] using last

/-- Trimmed texts that are joined stay trimmed. -/
theorem trimmed_intercalate (sep : Text) {parts : List Text} (h : ∀ part ∈ parts, part ≠ [] ∧ Trimmed part) :
    Trimmed (sep.intercalate parts) := by
  suffices joined : (parts ≠ [] → sep.intercalate parts ≠ []) ∧ Trimmed (sep.intercalate parts) from joined.2
  induction parts with
  | nil => exact ⟨fun h => absurd rfl h, by simp [Trimmed]⟩
  | cons part parts ih =>
    obtain ⟨hne, ht⟩ := h part (List.mem_cons_self ..)
    cases parts with
    | nil => simpa using ⟨hne, ht⟩
    | cons next parts =>
      obtain ⟨restNe, rest⟩ := ih fun q hq => h q (List.mem_cons_of_mem _ hq)
      rw [List.intercalate_cons_cons, List.append_assoc]
      refine ⟨fun _ e => hne (List.append_eq_nil_iff.mp e).1, ht.append_append rest hne (restNe (by simp)) sep⟩

/-- The characters of joined texts are those of the parts and of the separator. -/
theorem forall_mem_intercalate {p : Char → Prop} {sep : Text} {parts : List Text} (hs : ∀ c ∈ sep, p c)
    (h : ∀ part ∈ parts, ∀ c ∈ part, p c) : ∀ c ∈ sep.intercalate parts, p c := by
  induction parts with
  | nil => exact fun c hc => absurd hc (by simp)
  | cons part parts ih =>
    have hp := h part (List.mem_cons_self ..)
    cases parts with
    | nil => simpa using hp
    | cons next parts =>
      rw [List.intercalate_cons_cons, List.forall_mem_append, List.forall_mem_append]
      exact ⟨⟨hp, hs⟩, ih fun q hq => h q (List.mem_cons_of_mem _ hq)⟩

theorem mem_intercalate {sep part : Text} {parts : List Text} (hp : part ∈ parts) {c : Char} (hc : c ∈ part) :
    c ∈ sep.intercalate parts := by
  induction parts with
  | nil => cases hp
  | cons first parts ih =>
    cases parts with
    | nil => simpa [List.mem_singleton.mp hp] using hc
    | cons next parts =>
      rw [List.intercalate_cons_cons]
      rcases List.mem_cons.mp hp with rfl | hp
      · exact List.mem_append_left _ (List.mem_append_left _ hc)
      · exact List.mem_append_right _ (ih hp)

/-! ## Words and lines -/

theorem breakAtBlank_append_cons {word : Text} (h : ∀ c ∈ word, isBlank c = false) {c : Char} (hc : isBlank c)
    (rest : Text) : breakAtBlank (word ++ c :: rest) = (word, c :: rest) := by
  have hw : ∀ d ∈ word, (!isBlank d) = true := fun d hd => by simp [h d hd]
  simp [breakAtBlank, List.takeWhile_append_of_pos hw, List.dropWhile_append_of_pos hw, hc]

theorem breakAtBlank_append_blank {word gap rest : Text} (h : ∀ c ∈ word, isBlank c = false) (hg : Blank gap)
    (apart : gap = [] → rest = []) : breakAtBlank (word ++ (gap ++ rest)) = (word, gap ++ rest) := by
  cases gap with
  | nil =>
    have visible : ∀ c ∈ word, (!isBlank c) = true := fun c hc => by rw [h c hc]; rfl
    have all : word.takeWhile (!isBlank ·) = word := List.takeWhile_eq_self_iff.mpr visible
    have none : word.dropWhile (!isBlank ·) = [] := List.dropWhile_eq_nil_iff.mpr visible
    rw [apart rfl, List.nil_append, List.append_nil, breakAtBlank, all, none]
  | cons c gap => exact breakAtBlank_append_cons h (hg c (List.mem_cons_self ..)) (gap ++ rest)

/-- A text is its first word, blanks and the rest. -/
theorem exists_gap (t : Text) : ∃ gap, Blank gap ∧ (gap = [] → trimLeft (breakAtBlank t).2 = []) ∧
    t = (breakAtBlank t).1 ++ (gap ++ trimLeft (breakAtBlank t).2) := by
  have behind : (breakAtBlank t).2.takeWhile isBlank ++ trimLeft (breakAtBlank t).2 = (breakAtBlank t).2 :=
    List.takeWhile_append_dropWhile
  refine ⟨(breakAtBlank t).2.takeWhile isBlank, blank_takeWhile _, fun none => ?_, ?_⟩
  · have first := List.head?_dropWhile_not (!isBlank ·) t
    have rest : (breakAtBlank t).2 = t.dropWhile (!isBlank ·) := rfl
    cases found : (breakAtBlank t).2 with
    | nil => rfl
    | cons c cs =>
      rw [← rest, found] at first
      rw [found] at none
      have blank : isBlank c := by simpa using first
      simp [blank] at none
  · rw [behind, breakAtBlank_append]

theorem splitOn_append {sep : Char} {part : Text} (h : sep ∉ part) (t : Text) :
    splitOn sep (part ++ t) = (splitOn sep t).modifyHead (part ++ ·) := by
  induction part with
  | nil =>
    rw [List.nil_append]
    cases splitOn sep t <;> rfl
  | cons c cs ih =>
    have hc : c ≠ sep := fun e => h (e ▸ List.mem_cons_self ..)
    rw [List.cons_append, splitOn_cons, if_neg hc, ih fun hs => h (List.mem_cons_of_mem _ hs),
      List.modifyHead_modifyHead]
    rfl

theorem splitOn_intercalate {sep : Char} {parts : List Text} (hne : parts ≠ []) (h : ∀ part ∈ parts, sep ∉ part) :
    splitOn sep ([sep].intercalate parts) = parts := by
  induction parts with
  | nil => exact absurd rfl hne
  | cons part parts ih =>
    have hp := h part (List.mem_cons_self ..)
    cases parts with
    | nil =>
      have := splitOn_append hp []
      simpa [splitOn, splitOn.go] using this
    | cons next parts =>
      have rest := ih (by simp) fun q hq => h q (List.mem_cons_of_mem _ hq)
      rw [List.intercalate_cons_cons, List.append_assoc, splitOn_append hp, List.singleton_append, splitOn_cons,
        if_pos rfl, rest]
      simp

/-- A text of parts that each end with the separator is split into them and an empty part behind the last one. -/
theorem splitOn_flatMap {sep : Char} {parts : List Text} (h : ∀ part ∈ parts, sep ∉ part) :
    splitOn sep (parts.flatMap (· ++ [sep])) = parts ++ [[]] := by
  induction parts with
  | nil => rfl
  | cons part parts ih =>
    have rest := ih fun q hq => h q (List.mem_cons_of_mem _ hq)
    rw [List.flatMap_cons, List.append_assoc, splitOn_append (h part (List.mem_cons_self ..)), List.singleton_append,
      splitOn_cons, if_pos rfl, rest]
    simp

theorem splitOn_ne_nil (sep : Char) (t : Text) : splitOn sep t ≠ [] := by
  induction t with
  | nil => exact List.cons_ne_nil _ _
  | cons c cs ih =>
    rw [splitOn_cons]
    split
    · exact List.cons_ne_nil _ _
    · obtain ⟨part, parts, whole⟩ := List.exists_cons_of_ne_nil ih
      rw [whole]
      exact List.cons_ne_nil _ _

/-- A text is its parts with the separator between them. -/
theorem intercalate_splitOn (sep : Char) (t : Text) : [sep].intercalate (splitOn sep t) = t := by
  induction t with
  | nil => rfl
  | cons c cs ih =>
    obtain ⟨part, parts, whole⟩ := List.exists_cons_of_ne_nil (splitOn_ne_nil sep cs)
    rw [whole] at ih
    rw [splitOn_cons, whole]
    split
    · next same => rw [List.intercalate_cons_cons, ih, same]; rfl
    · rw [List.modifyHead_cons]
      cases parts with
      | nil => simpa using ih
      | cons next parts =>
        rw [List.intercalate_cons_cons, List.append_assoc] at ih
        rw [List.intercalate_cons_cons, List.append_assoc, List.cons_append, ih]

theorem not_mem_of_mem_splitOn {sep : Char} {t part : Text} (h : part ∈ splitOn sep t) : sep ∉ part := by
  induction t generalizing part with
  | nil =>
    cases List.mem_singleton.mp h
    exact List.not_mem_nil
  | cons c cs ih =>
    rw [splitOn_cons] at h
    split at h
    · rcases List.mem_cons.mp h with rfl | h
      · exact List.not_mem_nil
      · exact ih h
    · next other =>
      obtain ⟨first, rest, whole⟩ := List.exists_cons_of_ne_nil (splitOn_ne_nil sep cs)
      rw [whole, List.modifyHead_cons] at h
      rcases List.mem_cons.mp h with rfl | h
      · exact List.not_mem_cons_of_ne_of_not_mem (Ne.symm other) (ih (whole ▸ List.mem_cons_self ..))
      · exact ih (whole ▸ List.mem_cons_of_mem _ h)

theorem mem_of_mem_splitOn {sep : Char} {t part : Text} (hp : part ∈ splitOn sep t) {c : Char} (hc : c ∈ part) :
    c ∈ t :=
  intercalate_splitOn sep t ▸ mem_intercalate hp hc

/-! ## Comments and labels -/

theorem stripComment_go (q : Quoting) (kept t : Text) (h : ';' ∉ t) :
    stripComment.go q kept t = kept.reverse ++ t := by
  induction t generalizing q kept with
  | nil => simp [stripComment.go]
  | cons c cs ih =>
    have hc : c ≠ ';' := fun e => h (e ▸ List.mem_cons_self ..)
    rw [stripComment.go, if_neg fun both => hc both.2, ih _ _ fun hs => h (List.mem_cons_of_mem _ hs)]
    simp

theorem stripComment_of_not_mem {t : Text} (h : ';' ∉ t) : stripComment t = t := stripComment_go _ _ _ h

theorem splitLabels_of_takeLabel? {t : Text} (h : takeLabel? t = none) : splitLabels t = ([], t) := by
  rw [splitLabels]
  split
  · rfl
  · next hs => rw [h] at hs; cases hs

theorem splitLabels_of_takeLabel?_some {t name rest : Text} (h : takeLabel? t = some (name, rest)) :
    splitLabels t = (name :: (splitLabels rest).1, (splitLabels rest).2) := by
  rw [splitLabels]
  split
  · next none => cases none.symm.trans h
  · next found =>
    cases Option.some.inj (found.symm.trans h)
    rfl

/-- A text without a colon in front has a label if its first word ends with one. -/
theorem takeLabel?_of_ne {t : Text} (h : ∀ rest, t ≠ ':' :: rest) : takeLabel? t =
    if (breakAtBlank t).1.getLast? = some ':' then some ((breakAtBlank t).1.dropLast, trimLeft (breakAtBlank t).2)
    else none := by
  unfold takeLabel?
  split
  · exact absurd rfl (h _)
  · rfl

theorem suffix_of_takeLabel? {t name rest : Text} (h : takeLabel? t = some (name, rest)) : rest <:+ t := by
  have behind (u : Text) : trimLeft (breakAtBlank u).2 <:+ u :=
    (List.dropWhile_suffix _).trans (List.dropWhile_suffix _)
  unfold takeLabel? at h
  split at h
  · next s =>
    cases h
    exact (behind s).trans (List.suffix_cons ..)
  · simp only at h
    split at h <;> cases h
    exact behind t

/-- The statement of a text is its end. -/
theorem suffix_splitLabels (t : Text) : (splitLabels t).2 <:+ t := by
  fun_induction splitLabels t with
  | case1 t => exact List.suffix_refl t
  | case2 t name rest found names statement behind ih =>
    rw [behind] at ih
    exact ih.trans (suffix_of_takeLabel? found)

/-- A line of a mnemonic and more has no labels. -/
theorem splitLine_of_word {word rest : Text} (hw : ∀ c ∈ word, isBlank c = false ∧ c ≠ ':') (hne : word ≠ [])
    (ht : Trimmed (word ++ ' ' :: rest)) (hc : ';' ∉ word ++ ' ' :: rest) :
    splitLine (word ++ ' ' :: rest) = ([], word ++ ' ' :: rest) := by
  have head : ∀ c ∈ word, c ≠ ':' := fun c h => (hw c h).2
  have broken := breakAtBlank_append_cons (fun c h => (hw c h).1) (by decide : isBlank ' ') rest
  have last : word.getLast? ≠ some ':' := fun e => head ':' (List.mem_of_getLast? e) rfl
  rw [splitLine, stripComment_of_not_mem hc, trim_of_trimmed ht]
  refine splitLabels_of_takeLabel? ?_
  obtain ⟨c, cs, rfl⟩ := List.exists_cons_of_ne_nil hne
  have colon : c ≠ ':' := head c (List.mem_cons_self ..)
  unfold takeLabel?
  split
  · next hcons => exact absurd (List.cons.inj hcons).1 colon
  · simp only [broken, last, if_false]

/-! ## Items -/

/-- A text that can stand between commas. -/
structure IsItem (t : Text) : Prop where
  ne_nil : t ≠ []
  trimmed : Trimmed t
  no_comma : ',' ∉ t
  no_quote : '"' ∉ t

/-- The characters of items are those of the text. -/
theorem mem_of_mem_splitItems {t item : Text} (hi : item ∈ splitItems t) {c : Char} (hc : c ∈ item) : c ∈ t := by
  suffices found : ∀ q part done, item ∈ splitItems.go q part done t → c ∈ part ∨ item ∈ done ∨ c ∈ t by
    unfold splitItems at hi
    split at hi
    · cases hi
    · simpa using found _ _ _ hi
  clear hi
  intro q part done hi
  induction t generalizing q part done with
  | nil =>
    rw [splitItems.go, List.mem_reverse] at hi
    rcases List.mem_cons.mp hi with rfl | hi
    · exact .inl (List.mem_reverse.mp (mem_of_mem_trim hc))
    · exact .inr (.inl hi)
  | cons d ds ih =>
    rw [splitItems.go] at hi
    split at hi
    · rcases ih _ _ _ hi with h | h | h
      · cases h
      · rcases List.mem_cons.mp h with rfl | h
        · exact .inl (List.mem_reverse.mp (mem_of_mem_trim hc))
        · exact .inr (.inl h)
      · exact .inr (.inr (List.mem_cons_of_mem _ h))
    · rcases ih _ _ _ hi with h | h | h
      · rcases List.mem_cons.mp h with rfl | h
        · exact .inr (.inr (List.mem_cons_self ..))
        · exact .inl h
      · exact .inr (.inl h)
      · exact .inr (.inr (List.mem_cons_of_mem _ h))

theorem splitItems_go_append {part : Text} (hc : ',' ∉ part) (hq : '"' ∉ part) (item : Text) (done : List Text)
    (t : Text) :
    splitItems.go .outside item done (part ++ t) = splitItems.go .outside (part.reverse ++ item) done t := by
  induction part generalizing item with
  | nil => rfl
  | cons c cs ih =>
    have comma : c ≠ ',' := fun e => hc (e ▸ List.mem_cons_self ..)
    have quote : c ≠ '"' := fun e => hq (e ▸ List.mem_cons_self ..)
    rw [List.cons_append, splitItems.go, if_neg fun both => comma both.2]
    simp only [Quoting.next, quote, if_false]
    rw [ih (fun h => hc (List.mem_cons_of_mem _ h)) fun h => hq (List.mem_cons_of_mem _ h)]
    simp

/-- The items behind `item`, which holds blanks only, are found one after the other. -/
theorem splitItems_go_intercalate {items : List Text} (h : ∀ t ∈ items, IsItem t) (hne : items ≠ [])
    {item : Text} (hi : item = [] ∨ item = [' ']) (done : List Text) :
    splitItems.go .outside item done ([',', ' '].intercalate items) = done.reverse ++ items := by
  induction items generalizing item done with
  | nil => exact absurd rfl hne
  | cons t items ih =>
    have ht := h t (List.mem_cons_self ..)
    have trimmed : trim (t.reverse ++ item).reverse = t := by
      rcases hi with rfl | rfl
      · simpa using trim_of_trimmed ht.trimmed
      · simpa [trim_cons_of_isBlank (by decide : isBlank ' ')] using trim_of_trimmed ht.trimmed
    cases items with
    | nil =>
      have := splitItems_go_append ht.no_comma ht.no_quote item done []
      rw [List.append_nil] at this
      rw [List.intercalate_singleton, this, splitItems.go, trimmed, List.reverse_cons]
    | cons next items =>
      have rest := ih (fun u hu => h u (List.mem_cons_of_mem _ hu)) (by simp) (.inr rfl) (t :: done)
      rw [List.intercalate_cons_cons, List.append_assoc, splitItems_go_append ht.no_comma ht.no_quote,
        List.cons_append, splitItems.go, if_pos ⟨rfl, rfl⟩, List.cons_append, splitItems.go, if_neg (by decide),
        trimmed]
      simpa [Quoting.next] using rest

theorem splitItems_intercalate {items : List Text} (h : ∀ t ∈ items, IsItem t) (hne : items ≠ []) :
    splitItems ([',', ' '].intercalate items) = items := by
  have visible : ([',', ' '].intercalate items).all isBlank = false := by
    obtain ⟨t, items, rfl⟩ := List.exists_cons_of_ne_nil hne
    have ht := h t (List.mem_cons_self ..)
    have := all_isBlank_of_trimmed ht.trimmed ht.ne_nil
    cases items <;> simp [List.intercalate_cons_cons, List.all_append, this]
  rw [splitItems, visible]
  simpa using splitItems_go_intercalate h hne (.inl rfl) []

end Dcpu16
