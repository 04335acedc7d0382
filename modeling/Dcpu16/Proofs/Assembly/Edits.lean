import Dcpu16.Proofs.Assembly.Names
import Dcpu16.Proofs.Assembly.Steps
import Dcpu16.Proofs.Text.Quoting
import Mathlib.Logic.Relation

/-!
# The layout of a program text

A line may be given a comment or blanks around it, or lines without a word in front of it, and its labels may be moved
to lines of their own (`LineEdit`). If the line ends in a carriage return, this may happen in front of it. None of this
makes a difference to what the line does (`LineEdit.steps_eq`), so however often a program is edited in these ways it
has the same words (`layout_makes_no_difference`). Whatever labels a line has can be moved (`exists_labelled`).
-/

namespace Dcpu16

/-! ## Comments and blanks -/

section
variable {t : Text}

theorem stripComment_comment (outside : Quoting.outside.behind (stripComment t) = .outside) (text : Text) :
    stripComment (t ++ ';' :: text) = stripComment t := by
  obtain ⟨hidden, comment, whole, ends⟩ := exists_comment t
  have further : IsComment (comment ++ ';' :: text) := by
    rcases ends with rfl | ⟨-, _, rfl⟩ <;> rintro _ ⟨⟩ <;> rfl
  calc stripComment (t ++ ';' :: text)
    _ = stripComment (stripComment t ++ (comment ++ ';' :: text)) := by rw [← List.append_assoc, ← whole]
    _ = stripComment t ++ stripComment (comment ++ ';' :: text) := stripComment_append ⟨hidden, outside⟩ _
    _ = stripComment t := by rw [stripComment_of_isComment further, List.append_nil]

/-- Blanks behind a line belong to its comment, or are kept. -/
theorem trim_stripComment_behind {behind : Text} (he : Blank behind) (t : Text) :
    trim (stripComment (t ++ behind)) = trim (stripComment t) := by
  obtain ⟨hidden, comment, whole, rfl | ⟨outside, text, rfl⟩⟩ := exists_comment t
  · have plain : ';' ∉ behind := fun h => absurd (he _ h) (by decide)
    rw [List.append_nil] at whole
    have kept : stripComment (t ++ behind) = t ++ behind := by
      rw [← whole] at hidden
      rw [stripComment, stripComment_go_append hidden, stripComment_go _ _ _ plain, List.append_nil,
        List.reverse_reverse]
    rw [kept, trim_append_right he, ← whole]
  · have further : IsComment (';' :: text ++ behind) := by
      rintro _ ⟨⟩
      rfl
    have kept : stripComment (t ++ behind) = stripComment t := by
      calc stripComment (t ++ behind)
        _ = stripComment (stripComment t ++ (';' :: text ++ behind)) := by rw [← List.append_assoc, ← whole]
        _ = stripComment t ++ stripComment (';' :: text ++ behind) := stripComment_append ⟨hidden, outside⟩ _
        _ = stripComment t := by rw [stripComment_of_isComment further, List.append_nil]
    rw [kept]

theorem trim_stripComment_before {before : Text} (hb : Blank before) (t : Text) :
    trim (stripComment (before ++ t)) = trim (stripComment t) := by
  rw [stripComment_append (Quoting.closed_of_blank hb (by decide)), trim_append_left hb]

end

/-! ## Labels -/

/-- A label as it is written: its name behind a colon or in front of one. -/
inductive IsMark : Text → Text → Prop
  | before {name : Text} (h : isName name) : IsMark (':' :: name) name
  | behind {name : Text} (h : isName name) : IsMark (name ++ [':']) name

/-- What may follow a label: nothing, a blank or a comment. -/
def Follows (t : Text) : Prop := ∀ c ∈ t.head?, isBlank c ∨ c = ';'

instance (t : Text) : Decidable (Follows t) := Option.decidableForallMem t.head?

section
variable {mark name : Text}

theorem IsMark.visible (h : IsMark mark name) : mark ≠ [] ∧ ∀ c ∈ mark, isBlank c = false := by
  have colon : isBlank ':' = false := by decide
  cases h with
  | before h =>
    have named := fun c hc => ((isWord_of_isName h).visible c hc).1
    exact ⟨List.cons_ne_nil _ _, List.forall_mem_cons.mpr ⟨colon, named⟩⟩
  | behind h =>
    refine ⟨List.concat_ne_nil _ _, List.forall_mem_append.mpr ⟨fun c hc => ((isWord_of_isName h).visible c hc).1, ?_⟩⟩
    exact List.forall_mem_singleton.mpr colon

theorem IsMark.closed (h : IsMark mark name) : Quoting.Closed ';' mark := by
  cases h with
  | before h | behind h =>
    obtain ⟨-, quote, semicolon⟩ := (isWord_of_isName h).plain
    exact Quoting.closed_of_not_mem (by simpa using quote) (by simpa using semicolon)

/-- A label is found in front of a text. -/
theorem takeLabel?_of_isMark (h : IsMark mark name) {gap rest : Text} (hg : Blank gap) (ht : Trimmed rest)
    (apart : gap = [] → rest = []) : takeLabel? (mark ++ (gap ++ rest)) = some (name, rest) := by
  have behind : trimLeft (gap ++ rest) = rest := (trimLeft_append hg rest).trans (trimLeft_of_head ht.1)
  cases h with
  | before named =>
    have visible := fun c hc => ((isWord_of_isName named).visible c hc).1
    show some ((breakAtBlank (name ++ (gap ++ rest))).1, trimLeft (breakAtBlank (name ++ (gap ++ rest))).2) = _
    rw [breakAtBlank_append_blank visible hg apart, behind]
  | behind named =>
    have visible := (IsMark.behind named).visible.2
    have other (u : Text) : name ++ [':'] ++ (gap ++ rest) ≠ ':' :: u := by
      intro e
      obtain ⟨c, cs, rfl⟩ := List.exists_cons_of_ne_nil (isWord_of_isName named).ne_nil
      exact (isWord_of_isName named).plain.1 ((List.cons.inj e).1 ▸ List.mem_cons_self ..)
    rw [takeLabel?_of_ne other, breakAtBlank_append_blank visible hg apart, behind]
    simp

/-- A label that is found is there as it is written. -/
theorem exists_mark {t rest : Text} (h : takeLabel? t = some (name, rest)) (named : isName name) :
    ∃ mark gap, IsMark mark name ∧ Blank gap ∧ (gap = [] → rest = []) ∧ t = mark ++ (gap ++ rest) := by
  by_cases starts : ∃ s, t = ':' :: s
  · obtain ⟨s, rfl⟩ := starts
    obtain ⟨gap, hg, apart, whole⟩ := exists_gap s
    cases h
    exact ⟨_, gap, .before named, hg, apart, congrArg (':' :: ·) whole⟩
  · obtain ⟨gap, hg, apart, whole⟩ := exists_gap t
    rw [takeLabel?_of_ne fun s e => starts ⟨s, e⟩] at h
    split at h
    · next last =>
      obtain ⟨_, word⟩ := List.getLast?_eq_some_iff.mp last
      rw [word, List.dropLast_concat] at h
      rw [word] at whole
      cases h
      exact ⟨_, gap, .behind named, hg, apart, whole⟩
    · cases h

theorem trim_isMark (h : IsMark mark name) {t : Text} (first : ∀ c ∈ t.head?, isBlank c) :
    ∃ gap, Blank gap ∧ (gap = [] → trim t = []) ∧ trim (mark ++ t) = mark ++ (gap ++ trim t) := by
  have own : Trimmed mark := trimmed_of_forall h.visible.2
  obtain ⟨gap, behind, hg, he, whole⟩ := exists_gaps t
  by_cases none : trim t = []
  · have blank : Blank t := by
      rw [whole, none]
      exact List.forall_mem_append.mpr ⟨hg, he⟩
    refine ⟨[], List.forall_mem_nil _, fun _ => none, ?_⟩
    rw [trim_append_right blank, trim_of_trimmed own, none, List.nil_append, List.append_nil]
  · refine ⟨gap, hg, ?_, ?_⟩
    · -- without a gap the text would start with what is left of it, which has no blank in front
      rintro rfl
      obtain ⟨c, cs, rest⟩ := List.exists_cons_of_ne_nil none
      have blank : isBlank c := first c (by rw [whole, rest]; rfl)
      have visible : isBlank c = false := (trimmed_trim t).1 c (by rw [rest]; rfl)
      cases blank.symm.trans visible
    · calc trim (mark ++ t)
        _ = trim ((mark ++ (gap ++ trim t)) ++ behind) := by
          rw [List.append_assoc, List.append_assoc, ← whole]
        _ = mark ++ (gap ++ trim t) := by
          rw [trim_append_right he, trim_of_trimmed (own.append_append (trimmed_trim t) h.visible.1 none gap)]

/-- **A label in front of a line is found before what the rest of the line has.** -/
theorem splitLine_label {before t : Text} (hb : Blank before) (hm : IsMark mark name) (apart : Follows t) :
    splitLine (before ++ (mark ++ t)) = (name :: (splitLine t).1, (splitLine t).2) := by
  have kept : stripComment (mark ++ t) = mark ++ stripComment t := stripComment_append hm.closed t
  have first : ∀ c ∈ (stripComment t).head?, isBlank c := by
    intro c hc
    obtain ⟨cs, rest⟩ := List.head?_eq_some_iff.mp hc
    obtain ⟨hidden, comment, whole, -⟩ := exists_comment t
    rw [rest] at hidden whole
    exact (apart c (by rw [whole]; rfl)).resolve_right fun semicolon => hidden.1 ⟨rfl, semicolon⟩
  obtain ⟨gap, hg, behind, found⟩ := trim_isMark hm first
  rw [splitLine, trim_stripComment_before hb, kept, found,
    splitLabels_of_takeLabel?_some (takeLabel?_of_isMark hm hg (trimmed_trim _) behind)]
  rfl

/-- The first label of a line is there as it is written. -/
theorem exists_label {t : Text} {names : List Text} (h : (splitLine t).1 = name :: names) (named : isName name) :
    ∃ before mark rest, Blank before ∧ IsMark mark name ∧ Follows rest ∧ t = before ++ (mark ++ rest) := by
  obtain ⟨r, found⟩ : ∃ r, takeLabel? (trim (stripComment t)) = some (name, r) := by
    cases found : takeLabel? (trim (stripComment t)) with
    | none =>
      rw [splitLine, splitLabels_of_takeLabel? found] at h
      cases h
    | some label =>
      rw [splitLine, splitLabels_of_takeLabel?_some found] at h
      cases h
      exact ⟨label.2, rfl⟩
  obtain ⟨mark, gap, hm, hg, apart, text⟩ := exists_mark found named
  obtain ⟨-, comment, whole, ends⟩ := exists_comment t
  obtain ⟨before, behind, hb, he, kept⟩ := exists_gaps (stripComment t)
  refine ⟨before, mark, gap ++ (r ++ (behind ++ comment)), hb, hm, ?_, ?_⟩
  · have blank {gap : Text} (hg : Blank gap) {u : Text} (hu : gap = [] → Follows u) : Follows (gap ++ u) := by
      cases gap with
      | nil => exact hu rfl
      | cons c gap =>
        rintro _ ⟨⟩
        exact .inl (hg _ (List.mem_cons_self ..))
    refine blank hg fun none => ?_
    rw [apart none, List.nil_append]
    refine blank he fun _ => ?_
    rcases ends with rfl | ⟨-, _, rfl⟩
    · rintro _ ⟨⟩
    · rintro _ ⟨⟩
      exact .inr rfl
  · rw [text] at kept
    rw [kept] at whole
    simpa using whole

end

theorem splitLine_nil : splitLine [] = ([], []) := splitLabels_of_takeLabel? rfl

/-! ## Edits -/

/-- **A line with labels in front**, each of which is to stand in a line of its own, and the rest of the line. -/
inductive Labelled : Text → List Text → Text → Prop
  | rest (t : Text) : Labelled t [] t
  | label {before mark name t rest : Text} {labels : List Text} (hb : Blank before) (hm : IsMark mark name)
    (apart : Follows t) (h : Labelled t labels rest) : Labelled (before ++ (mark ++ t)) ((before ++ mark) :: labels) rest

/-- A line without labels and without a statement: blanks, then maybe a comment. -/
def Wordless (t : Text) : Prop := ∃ gap comment, Blank gap ∧ IsComment comment ∧ t = gap ++ comment

/-- **An edit of a line that is a matter of layout**, and the lines that take its place. -/
inductive LineEdit : Text → List Text → Prop
  | comment {t : Text} (outside : Quoting.outside.behind (stripComment t) = .outside) (text : Text) :
    LineEdit t [t ++ ';' :: text]
  | blanks {before behind : Text} (t : Text) (hb : Blank before) (he : Blank behind) :
    LineEdit t [before ++ (t ++ behind)]
  | insert {lines : List Text} (t : Text) (h : ∀ line ∈ lines, Wordless line) : LineEdit t (lines ++ [t])
  | labels {t rest : Text} {labels : List Text} (h : Labelled t labels rest) : LineEdit t (labels ++ [rest])
  | beforeReturn {t last : Text} {ts : List Text} (h : LineEdit t (ts ++ [last])) :
    LineEdit (t ++ ['\r']) (ts ++ [last ++ ['\r']])

theorem lineSteps_of_wordless {t : Text} (h : Wordless t) : lineSteps t = [] := by
  obtain ⟨gap, comment, hg, hc, rfl⟩ := h
  have none : splitLine (gap ++ comment) = splitLine [] := by
    rw [splitLine, trim_stripComment_before hg, stripComment_of_isComment hc]
    rfl
  rw [lineSteps, none, splitLine_nil]
  rfl

theorem lineSteps_congr {t u : Text} (h : splitLine u = splitLine t) : lineSteps u = lineSteps t := by
  rw [lineSteps, h, lineSteps]

/-- A carriage return at the end of a line is a blank behind it. -/
theorem lineSteps_return (t : Text) : lineSteps (t ++ ['\r']) = lineSteps t :=
  lineSteps_congr (congrArg splitLabels (trim_stripComment_behind (by decide) t))

theorem Labelled.subset {t rest : Text} {labels : List Text} (h : Labelled t labels rest) :
    ∀ line ∈ labels ++ [rest], line ⊆ t := by
  induction h with
  | rest t => exact fun line hl => List.mem_singleton.mp hl ▸ List.Subset.refl _
  | label hb hm apart h ih =>
    refine List.forall_mem_cons.mpr ⟨fun c hc => ?_, fun line hl c hc => ?_⟩
    · exact (List.mem_append.mp hc).elim (List.mem_append_left _)
        fun hc => List.mem_append_right _ (List.mem_append_left _ hc)
    · exact List.mem_append_right _ (List.mem_append_right _ (ih line hl hc))

theorem Labelled.steps_eq {t rest : Text} {labels : List Text} (h : Labelled t labels rest) :
    (labels ++ [rest]).flatMap lineSteps = lineSteps t := by
  induction h with
  | rest t => exact List.flatMap_singleton ..
  | @label before mark name t rest labels hb hm apart h ih =>
    have alone : splitLine (before ++ mark) = ([name], []) := by
      have own := splitLine_label hb hm (t := []) nofun
      rwa [List.append_nil, splitLine_nil] at own
    rw [List.cons_append, List.flatMap_cons, ih, lineSteps, alone, lineSteps, lineSteps, splitLine_label hb hm apart]
    rfl

/-- An edit makes no difference to what the line does. -/
theorem LineEdit.steps_eq {t : Text} {ts : List Text} (h : LineEdit t ts) : ts.flatMap lineSteps = lineSteps t := by
  have same {t u : Text} (h : splitLine u = splitLine t) : [u].flatMap lineSteps = lineSteps t := by
    rw [List.flatMap_singleton, lineSteps_congr h]
  induction h with
  | comment outside text => exact same (by rw [splitLine, stripComment_comment outside, splitLine])
  | blanks t hb he =>
    exact same (by rw [splitLine, trim_stripComment_before hb, trim_stripComment_behind he, splitLine])
  | @insert lines t h =>
    have none : lines.flatMap lineSteps = [] :=
      List.flatMap_eq_nil_iff.mpr fun line hl => lineSteps_of_wordless (h line hl)
    rw [List.flatMap_append, none, List.nil_append, List.flatMap_singleton]
  | labels h => exact h.steps_eq
  | beforeReturn h ih =>
    rw [List.flatMap_append, List.flatMap_singleton] at ih ⊢
    rw [lineSteps_return, lineSteps_return, ih]

theorem LineEdit.ne_nil {t : Text} {ts : List Text} (h : LineEdit t ts) : ts ≠ [] := by
  cases h <;> simp

/-- The labels of a line can be moved, all of them, if they are names. -/
theorem exists_labelled (t : Text) (named : ∀ name ∈ (splitLine t).1, isName name) :
    ∃ labels rest, Labelled t labels rest ∧ (splitLine rest).1 = [] := by
  generalize found : (splitLine t).1 = names at named
  induction names generalizing t with
  | nil => exact ⟨[], t, .rest t, found⟩
  | cons name names ih =>
    obtain ⟨before, mark, rest, hb, hm, apart, rfl⟩ := exists_label found (named name (List.mem_cons_self ..))
    rw [splitLine_label hb hm apart] at found
    obtain ⟨labels, last, moved, none⟩ :=
      ih rest (List.cons.inj found).2 fun n hn => named n (List.mem_cons_of_mem _ hn)
    exact ⟨(before ++ mark) :: labels, last, .label hb hm apart moved, none⟩

/-! ## Programs -/

/-- **An edit of one line of a program text**, without line ends in the new lines. -/
def Edited (source source' : Text) : Prop :=
  ∃ pre line post ts, splitLines source = pre ++ line :: post ∧ LineEdit line ts ∧ (∀ t ∈ ts, '\n' ∉ t) ∧
    source' = ['\n'].intercalate (pre ++ (ts ++ post))

theorem Edited.toOption_assemble {source source' : Text} (h : Edited source source') :
    (assemble source').toOption = (assemble source).toOption := by
  obtain ⟨pre, line, post, ts, whole, edit, single, rfl⟩ := h
  have others {t : Text} (ht : t ∈ pre ++ line :: post) : '\n' ∉ t := not_mem_of_mem_splitOn (whole ▸ ht)
  have lines : splitLines (['\n'].intercalate (pre ++ (ts ++ post))) = pre ++ (ts ++ post) := by
    apply splitOn_intercalate
    · simp [edit.ne_nil]
    · intro t ht
      rcases List.mem_append.mp ht with ht | ht
      · exact others (List.mem_append_left _ ht)
      rcases List.mem_append.mp ht with ht | ht
      · exact single t ht
      · exact others (List.mem_append_right _ (List.mem_cons_of_mem _ ht))
  apply toOption_assemble_of_steps
  rw [lines, whole, List.flatMap_append, List.flatMap_append, List.flatMap_append, List.flatMap_cons, edit.steps_eq]

/-- **Layout makes no difference.** However often lines of a program are given comments or blanks or lines without a
word in front of them, or their labels are moved to lines of their own, the program has the same words. And of each line
all labels can be moved. -/
theorem layout_makes_no_difference {source : Text} {words : List Word} (h : assemble source = .ok words) :
    (∀ source', Relation.ReflTransGen Edited source source' → assemble source' = .ok words) ∧
    ∀ pre line post, splitLines source = pre ++ line :: post → ∃ labels rest, Labelled line labels rest ∧
      (splitLine rest).1 = [] ∧ Edited source (['\n'].intercalate (pre ++ ((labels ++ [rest]) ++ post))) := by
  constructor
  · intro source' edits
    induction edits with
    | refl => exact h
    | tail _ edit same =>
      apply eq_ok_of_toOption
      rw [edit.toOption_assemble, same]
      rfl
  · intro pre line post whole
    have hl : line ∈ splitLines source := whole ▸ List.mem_append_right _ (List.mem_cons_self ..)
    obtain ⟨l, laidOut, -⟩ := assemble_eq_ok h
    obtain ⟨labels, rest, moved, none⟩ := exists_labelled line (Layout.isName_of_addLines laidOut line hl)
    have single : ∀ t ∈ labels ++ [rest], '\n' ∉ t := fun t ht lineEnd =>
      not_mem_of_mem_splitOn hl (moved.subset t ht lineEnd)
    exact ⟨labels, rest, moved, none, pre, line, post, _, whole, .labels moved, single, rfl⟩

/-- A loop whose label is moved in front of it, and that is given a comment with a quote, a comma and a colon. -/
theorem layout_makes_no_difference_of_loop :
    assemble "loop:\n SET PC, loop;\"a, b:".toList = .ok [0x7f81, 0] := by
  have assembled : assemble "loop: SET PC, loop".toList = .ok [0x7f81, 0] := eq_ok_of_toOption (by decide +kernel)
  have moved : Edited "loop: SET PC, loop".toList "loop:\n SET PC, loop".toList := by
    refine ⟨[], "loop: SET PC, loop".toList, [], ["loop:".toList, " SET PC, loop".toList], by decide, ?_, by decide,
      by decide⟩
    exact .labels (.label (by decide : Blank []) (.behind (by decide : isName "loop".toList)) (by decide) (.rest _))
  have commented : Edited "loop:\n SET PC, loop".toList "loop:\n SET PC, loop;\"a, b:".toList := by
    refine ⟨["loop:".toList], " SET PC, loop".toList, [], [" SET PC, loop;\"a, b:".toList], by decide, ?_, by decide,
      by decide⟩
    exact .comment (by decide) "\"a, b:".toList
  exact (layout_makes_no_difference assembled).1 _ (.tail (.single moved) commented)

end Dcpu16
