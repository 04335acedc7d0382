import Dcpu16.Proofs.Assembly.Names
import Dcpu16.Proofs.Assembly.Written
import Mathlib.Data.List.Find

/-!
# Labels are resolved

A label means the number of words in front of its definition, wherever a program refers to it and in whichever case
its name is written; all other words are as the first pass has laid them out. Once a program is laid out and fits
into memory, the one thing that can still fail is a reference to a label that is defined nowhere, and the first of
them is reported (`labels_resolved`).
-/

namespace Dcpu16

/-! ## Words, references and definitions -/

/-- The name of the label that a value refers to. -/
def Value.label? : Value → Option Text
  | number _ => none
  | label name => some name

/-- What the words of a statement stand for, in their order; `before` words stand in front of it. -/
def Statement.wordValues (before : Nat) : Statement → List Value
  | .data values => values
  | .origin target => List.replicate (target.toNat - before) (.number 0)
  | .basic op b a => .number (Instruction.basic op b.form a.form).encode :: (a.next.toList ++ b.next.toList)
  | .special op a => .number (Instruction.special op a.form).encode :: a.next.toList

/-- The names of the labels that the statement of a line refers to, in the order of its words. -/
def lineReferences (t : Text) : List Text :=
  match Statement.parse (splitLine t).2 with
  | .ok st => st.values.filterMap Value.label?
  | .error _ => []

/-- The names of the labels that lines refer to, in the order of their words, each with the number of its line. The
first line has the number `first`. -/
def references (first : Nat) (lines : List Text) : List (Text × Nat) :=
  (lines.zipIdx first).flatMap fun (t, line) => (lineReferences t).map (·, line)

/-- Whether a label of this name stands in front of a line, in any case. -/
def definesLabel (lines : List Text) (name : Text) : Bool :=
  lines.any fun t => (splitLine t).1.any fun d => upperAscii d = upperAscii name

/-- A label of this name, in any case, stands in front of a line, and `p` is the number of words before that line. -/
def DefinedAt (lines : List Text) (name : Text) (p : Word) : Prop :=
  ∃ pre t post size, lines = pre ++ t :: post ∧ laidOut? pre = some size ∧
    (∃ d ∈ (splitLine t).1, upperAscii d = upperAscii name) ∧ p = UInt16.ofNat size

/-- The word of a value: a number itself, and for a label the one address at which it is defined. -/
def IsWordOf (lines : List Text) : Value → Word → Prop
  | .number n, w => w = n
  | .label name, w => ∀ p, DefinedAt lines name p ↔ p = w

/-- **The words of a line**: those of its statement's values, one for each. -/
structure LineWords (lines : List Text) (before : Nat) (t : Text) (ws : List Word) : Prop where
  blank (h : (splitLine t).2 = []) : ws = []
  statement (h : (splitLine t).2 ≠ []) : ∃ st, Statement.parse (splitLine t).2 = .ok st ∧
    ws.length = (st.wordValues before).length ∧
    ∀ (k : Nat) (v : Value), (st.wordValues before)[k]? = some v → ∃ w, ws[k]? = some w ∧ IsWordOf lines v w

/-! ## The first pass -/

namespace Layout

theorem place_eq_append {l l' : Layout} {line : Nat} {st : Statement} (h : l.place line st = .ok l') :
    l' = l.append ((st.wordValues l.cells.size).map (·.cell line)) := by
  cases st with
  | data values => exact (Except.ok.inj h).symm
  | origin target =>
    simp only [place] at h
    split at h
    · cases h
    · rw [Statement.wordValues, List.map_replicate]
      exact (Except.ok.inj h).symm
  | basic op b a => exact (Except.ok.inj h).symm
  | special op a => exact (Except.ok.inj h).symm

/-- The cells of a line are those of its statement's values. -/
theorem cells_addLine {l l' : Layout} {line : Nat} {t : Text} (h : l.addLine line t = .ok l') :
    (splitLine t).2 = [] ∧ l'.cells = l.cells ∨
      ∃ st, Statement.parse (splitLine t).2 = .ok st ∧
        l'.cells.toList = l.cells.toList ++ (st.wordValues l.cells.size).map (·.cell line) := by
  obtain ⟨l₁, names, ⟨empty, rfl⟩ | ⟨st, hst, placed⟩⟩ := addLine_eq_ok h
  · exact .inl ⟨empty, cells_names names⟩
  · refine .inr ⟨st, hst, ?_⟩
    rw [place_eq_append placed, toList_append, cells_names names]

end Layout

/-! ## References -/

/-- The label and the line of a reference. -/
def Cell.reference? : Cell → Option (Text × Nat)
  | word _ => none
  | reference label line => some (label, line)

theorem Statement.filterMap_wordValues (st : Statement) (before : Nat) :
    (st.wordValues before).filterMap Value.label? = st.values.filterMap Value.label? := by
  cases st with
  | data values => rfl
  | origin target => simp [wordValues, values, Value.label?]
  | basic op b a => rfl
  | special op a => rfl

theorem Statement.wellNamed_of_mem_wordValues (st : Statement) {before : Nat} {v : Value}
    (h : ∀ u ∈ st.values, u.WellNamed) (hv : v ∈ st.wordValues before) : v.WellNamed := by
  cases st with
  | data values => exact h v hv
  | origin target =>
    obtain ⟨-, rfl⟩ := List.mem_replicate.mp hv
    trivial
  | basic op b a | special op a =>
    rcases List.mem_cons.mp hv with rfl | hv
    · trivial
    · exact h v hv

theorem filterMap_cells (vs : List Value) (line : Nat) :
    (vs.map (·.cell line)).filterMap Cell.reference? =
      (vs.filterMap Value.label?).map fun name => (upper name, line) := by
  rw [List.filterMap_map, List.map_filterMap]
  congr 1
  funext v
  cases v <;> rfl

theorem lineReferences_of_empty {t : Text} (h : (splitLine t).2 = []) : lineReferences t = [] := by
  rw [lineReferences, h]
  rfl

theorem references_cons (first : Nat) (t : Text) (ts : List Text) :
    references first (t :: ts) = (lineReferences t).map (·, first) ++ references (first + 1) ts := by
  rw [references, List.zipIdx_cons, List.flatMap_cons]
  rfl

/-- The references among the cells of lines are those of the lines, in upper case. -/
theorem references_addLines {l l' : Layout} {line : Nat} {ts : List Text} (h : l.addLines line ts = .ok l') :
    l'.cells.toList.filterMap Cell.reference? =
      l.cells.toList.filterMap Cell.reference? ++ (references line ts).map fun r => (upper r.1, r.2) := by
  induction ts generalizing l line with
  | nil => simp [← Except.ok.inj h, references]
  | cons t ts ih =>
    obtain ⟨l₁, first, rest⟩ := Layout.addLines_cons_eq_ok.mp h
    rw [ih rest, references_cons, List.map_append, ← List.append_assoc]
    congr 1
    rcases Layout.cells_addLine first with ⟨empty, same⟩ | ⟨st, hst, cells⟩
    · rw [same, lineReferences_of_empty empty]
      simp
    · have own : lineReferences t = st.values.filterMap Value.label? := by rw [lineReferences, hst]
      rw [cells, List.filterMap_append, filterMap_cells, Statement.filterMap_wordValues, own, List.map_map]
      rfl

/-- The labels that a program refers to are names. -/
theorem isName_of_mem_references {first : Nat} {lines : List Text} {r : Text × Nat} (h : r ∈ references first lines) :
    isName r.1 := by
  obtain ⟨⟨t, line⟩, -, h⟩ := List.mem_flatMap.mp h
  obtain ⟨name, hname, rfl⟩ := List.mem_map.mp h
  unfold lineReferences at hname
  split at hname
  · next st hst =>
    obtain ⟨v, hv, label⟩ := List.mem_filterMap.mp hname
    have named := Statement.wellNamed_of_parse hst v hv
    cases v <;> cases label
    exact named
  · cases hname

/-! ## Definitions -/

section
variable {lines : List Text} {l : Layout} {name : Text} {p : Word}

/-- The table of labels holds the label of a name, in any case, with the number of words before its line. -/
theorem lookup_iff_definedAt (h : Layout.addLines {} 1 lines = .ok l) (named : isName name) :
    l.symbols.lookup (upper name) = some p ↔ DefinedAt lines name p := by
  rw [lookup_iff_labelAt h]
  have same {t d : Text} (ht : t ∈ lines) (hd : d ∈ (splitLine t).1) :
      upper name = upper d ↔ upperAscii d = upperAscii name := by
    rw [upper_of_isName named, upper_of_isName (Layout.isName_of_addLines h t ht d hd), eq_comm]
  constructor
  · rintro ⟨pre, t, post, size, rfl, laid, ⟨d, hd, e⟩, rfl⟩
    exact ⟨pre, t, post, size, rfl, laid, ⟨d, hd, (same (by simp) hd).mp e⟩, rfl⟩
  · rintro ⟨pre, t, post, size, rfl, laid, ⟨d, hd, e⟩, rfl⟩
    exact ⟨pre, t, post, size, rfl, laid, ⟨d, hd, (same (by simp) hd).mpr e⟩, rfl⟩

theorem exists_definedAt_iff (h : Layout.addLines {} 1 lines = .ok l) :
    (∃ p, DefinedAt lines name p) ↔ definesLabel lines name := by
  simp only [definesLabel, List.any_eq_true, decide_eq_true_eq]
  constructor
  · rintro ⟨-, pre, t, post, -, rfl, -, own, -⟩
    exact ⟨t, by simp, own⟩
  · rintro ⟨t, ht, own⟩
    obtain ⟨pre, post, rfl⟩ := List.append_of_mem ht
    obtain ⟨l₁, front, -⟩ := Layout.addLines_append_eq_ok.mp h
    exact ⟨_, pre, t, post, l₁.cells.size, rfl, laidOut?_of_addLines front, own, rfl⟩

theorem isNone_lookup (h : Layout.addLines {} 1 lines = .ok l) (named : isName name) :
    (l.symbols.lookup (upper name)).isNone = !definesLabel lines name := by
  have found : (l.symbols.lookup (upper name)).isSome ↔ definesLabel lines name := by
    simp only [Option.isSome_iff_exists, lookup_iff_definedAt h named, exists_definedAt_iff h]
  rw [← Option.not_isSome, Bool.eq_iff_iff.mpr found]

theorem isWordOf_of_word? (h : Layout.addLines {} 1 lines = .ok l) {v : Value} (named : v.WellNamed)
    (hp : v.word? l.symbols = some p) : IsWordOf lines v p := by
  cases v with
  | number n => exact (Option.some.inj hp).symm
  | label name =>
    intro q
    rw [← lookup_iff_definedAt h named]
    exact ⟨fun hq => Option.some.inj (hq.symm.trans hp), fun hq => hq ▸ hp⟩

end

/-! ## The second pass -/

/-- The second pass fails at the first reference to a label that the table does not hold. -/
theorem mapM_resolve_eq_error {symbols : List (Text × Word)} {cells : List Cell} {e : AssemblyError} :
    cells.mapM (Layout.resolve symbols) = .error e ↔
      ∃ label line, (cells.filterMap Cell.reference?).find? (fun r => (symbols.lookup r.1).isNone) =
        some (label, line) ∧ e = .inLine line (.undefinedLabel label) := by
  induction cells with
  | nil =>
    rw [List.mapM_nil]
    exact iff_of_false (fun h => by cases h) (fun ⟨_, _, h, _⟩ => by cases h)
  | cons cell cells ih =>
    rw [mapM_cons_eq_error, ih]
    cases cell with
    | word w => simp [Layout.resolve, Cell.reference?]
    | reference label line =>
      cases found : symbols.lookup label with
      | some p => simp [Layout.resolve, Cell.reference?, found]
      | none =>
        simp only [Layout.resolve, Cell.reference?, found, List.filterMap_cons, List.find?_cons, Option.isNone_none,
          Except.error.injEq, reduceCtorEq, false_and, exists_false, or_false, Option.some.injEq, Prod.mk.injEq]
        constructor
        · rintro rfl
          exact ⟨label, line, ⟨rfl, rfl⟩, rfl⟩
        · rintro ⟨_, _, ⟨rfl, rfl⟩, rfl⟩
          rfl

theorem assemble_of_addLines {source : Text} {l : Layout} (h : Layout.addLines {} 1 (splitLines source) = .ok l)
    (size : l.cells.size ≤ Word.count) : assemble source = l.cells.toList.mapM (Layout.resolve l.symbols) := by
  have fits : ¬ Word.count < l.cells.size := Nat.not_lt.mpr size
  rw [assemble, h]
  simp only [bind, Except.bind, fits, if_false]

theorem addLines_of_laidOut? {lines : List Text} {n : Nat} (h : laidOut? lines = some n) :
    ∃ l, Layout.addLines {} 1 lines = .ok l ∧ l.cells.size = n := by
  unfold laidOut? at h
  split at h <;> cases h
  exact ⟨_, ‹_›, rfl⟩

/-- A program that is laid out and fits fails exactly at its first reference to a label that is defined nowhere. -/
theorem assemble_eq_error_iff {source : Text} {n : Nat} (h : laidOut? (splitLines source) = some n)
    (size : n ≤ Word.count) {e : AssemblyError} :
    assemble source = .error e ↔
      ∃ name line, (references 1 (splitLines source)).find? (!definesLabel (splitLines source) ·.1) =
        some (name, line) ∧ e = .inLine line (.undefinedLabel (upperAscii name)) := by
  obtain ⟨l, hl, rfl⟩ := addLines_of_laidOut? h
  have cells : l.cells.toList.filterMap Cell.reference? =
      (references 1 (splitLines source)).map fun r => (upper r.1, r.2) := references_addLines hl
  rw [assemble_of_addLines hl size, mapM_resolve_eq_error, cells, List.find?_map]
  have same : (references 1 (splitLines source)).find?
        ((fun r => (l.symbols.lookup r.1).isNone) ∘ fun r => (upper r.1, r.2)) =
      (references 1 (splitLines source)).find? (!definesLabel (splitLines source) ·.1) :=
    List.find?_congr fun r hr => isNone_lookup hl (isName_of_mem_references hr)
  rw [same]
  constructor
  · rintro ⟨label, line, found, rfl⟩
    obtain ⟨r, first, e⟩ := Option.map_eq_some_iff.mp found
    cases e
    refine ⟨r.1, r.2, first, ?_⟩
    rw [upper_of_isName (isName_of_mem_references (List.mem_of_find?_eq_some first))]
  · rintro ⟨name, line, found, rfl⟩
    refine ⟨upper name, line, by rw [found]; rfl, ?_⟩
    rw [upper_of_isName (isName_of_mem_references (List.mem_of_find?_eq_some found))]

/-! ## Whole programs -/

/-- The words of a line that is laid out, once the labels are looked up. -/
theorem lineWords_of_cells {lines : List Text} {l l₀ l₁ : Layout} (hl : Layout.addLines {} 1 lines = .ok l) {line : Nat}
    {t : Text} (own : l₀.addLine line t = .ok l₁) {cells : List Cell}
    (hcells : l₁.cells.toList = l₀.cells.toList ++ cells) {ws : List Word}
    (hws : cells.mapM (Layout.resolve l.symbols) = .ok ws) : LineWords lines l₀.cells.size t ws := by
  rcases Layout.cells_addLine own with ⟨empty, same⟩ | ⟨st, hst, placed⟩
  · rw [same] at hcells
    rw [List.append_right_eq_self.mp hcells.symm] at hws
    exact ⟨fun _ => mapM_nil_eq_ok.mp hws, fun h => absurd empty h⟩
  · have some_statement : (splitLine t).2 ≠ [] := by
      intro empty
      rw [empty] at hst
      cases hst
    refine ⟨fun h => absurd h some_statement, fun _ => ⟨st, hst, ?_⟩⟩
    rw [← List.append_cancel_left (placed.symm.trans hcells)] at hws
    have values := Layout.mapM_resolve_cells hws
    refine ⟨?_, fun k v hv => ?_⟩
    · simpa using (congrArg List.length values).symm
    · have at_k := congrArg (·[k]?) values
      simp only [List.getElem?_map, hv, Option.map_some] at at_k
      obtain ⟨w, hw, word⟩ := Option.map_eq_some_iff.mp at_k.symm
      have named : v.WellNamed :=
        st.wellNamed_of_mem_wordValues (Statement.wellNamed_of_parse hst) (List.mem_of_getElem? hv)
      exact ⟨w, hw, isWordOf_of_word? hl named word.symm⟩

/-- **Labels are resolved.** In a program that is assembled each line has the words of its statement's values behind
the words of the lines before it. A program that is laid out and fits into memory fails if and only if it refers to a
label that is defined nowhere, and then the first such reference is reported. -/
theorem labels_resolved (source : Text) :
    (∀ words, assemble source = .ok words →
      ∀ pre t post, splitLines source = pre ++ t :: post →
        ∃ before ws behind, words = before ++ (ws ++ behind) ∧ laidOut? pre = some before.length ∧
          LineWords (splitLines source) before.length t ws) ∧
    ∀ n, laidOut? (splitLines source) = some n → n ≤ Word.count →
      ((∃ e, assemble source = .error e) ↔
        ∃ r ∈ references 1 (splitLines source), definesLabel (splitLines source) r.1 = false) ∧
      ∀ e, assemble source = .error e ↔
        ∃ name line, (references 1 (splitLines source)).find? (!definesLabel (splitLines source) ·.1) =
          some (name, line) ∧ e = .inLine line (.undefinedLabel (upperAscii name)) := by
  constructor
  · intro words h pre t post split
    obtain ⟨l, hl, hw⟩ := assemble_eq_ok h
    have laid := hl
    rw [split] at laid
    obtain ⟨l₀, l₁, cells, before, ws, behind, front, own, hcells, hws, length, rfl⟩ := words_of_line laid hw
    refine ⟨before, ws, behind, rfl, length ▸ laidOut?_of_addLines front, ?_⟩
    exact length ▸ lineWords_of_cells hl own hcells hws
  · intro n h size
    refine ⟨?_, fun e => assemble_eq_error_iff h size⟩
    simp only [assemble_eq_error_iff h size]
    constructor
    · rintro ⟨-, name, line, found, -⟩
      exact ⟨(name, line), List.mem_of_find?_eq_some found, by simpa using List.find?_some found⟩
    · rintro ⟨r, hr, undefined⟩
      have found : ((references 1 (splitLines source)).find? (!definesLabel (splitLines source) ·.1)).isSome :=
        List.find?_isSome.mpr ⟨r, hr, by simpa using undefined⟩
      obtain ⟨first, hfirst⟩ := Option.isSome_iff_exists.mp found
      exact ⟨_, first.1, first.2, hfirst, rfl⟩

example : (assemble "SET PC, Ahead\nORG 4\nahead: DAT 7, AHEAD".toList).toOption = some [0x7f81, 4, 0, 0, 7, 4] := by
  decide +kernel

end Dcpu16
