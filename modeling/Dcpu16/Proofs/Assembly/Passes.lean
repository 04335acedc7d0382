import Dcpu16.Assembly
import Dcpu16.Proofs.Assembly.Meaning
import Dcpu16.Proofs.Except

/-!
# The two passes

The first pass only appends cells and only adds labels: what it has laid out for the first lines stays. So the words
of a program are those of its lines one behind the other, and a label has the address of the line that it starts.
-/

namespace Dcpu16

namespace Layout

/-! ## Single steps -/

theorem define_eq_ok {l l' : Layout} {name : Text} (h : l.define name = .ok l') :
    l.symbols.lookup (upper name) = none ∧ l' = { l with symbols := (upper name, l.address) :: l.symbols } := by
  unfold define at h
  split at h
  · cases h
  · split at h
    · cases h
    · next free =>
      rw [Bool.not_eq_true, Option.isSome_eq_false_iff, Option.isNone_iff_eq_none] at free
      exact ⟨free, (Except.ok.inj h).symm⟩

theorem place_eq_ok {l l' : Layout} {line : Nat} {st : Statement} (h : l.place line st = .ok l') :
    ∃ cells, l' = l.append cells := by
  cases st with
  | data values => exact ⟨_, (Except.ok.inj h).symm⟩
  | origin target =>
    simp only [place] at h
    split at h
    · cases h
    · exact ⟨_, (Except.ok.inj h).symm⟩
  | basic op b a => exact ⟨_, (Except.ok.inj h).symm⟩
  | special op a => exact ⟨_, (Except.ok.inj h).symm⟩

theorem addLine_eq_ok {l l' : Layout} {line : Nat} {t : Text} (h : l.addLine line t = .ok l') :
    ∃ l₁, (splitLine t).1.foldlM define l = .ok l₁ ∧
      ((splitLine t).2 = [] ∧ l' = l₁ ∨
        ∃ st, Statement.parse (splitLine t).2 = .ok st ∧ l₁.place line st = .ok l') := by
  unfold addLine at h
  obtain ⟨l₁, hl₁, h⟩ := bind_eq_ok.mp h
  refine ⟨l₁, hl₁, ?_⟩
  split at h
  · next empty => exact .inl ⟨List.isEmpty_iff.mp empty, (Except.ok.inj h).symm⟩
  · obtain ⟨st, hst, h⟩ := bind_eq_ok.mp h
    exact .inr ⟨st, hst, h⟩

theorem addLines_cons_eq_ok {l l' : Layout} {line : Nat} {t : Text} {ts : List Text} :
    l.addLines line (t :: ts) = .ok l' ↔ ∃ l₁, l.addLine line t = .ok l₁ ∧ l₁.addLines (line + 1) ts = .ok l' := by
  rw [addLines]
  cases l.addLine line t <;> simp

theorem addLines_append_eq_ok {l l' : Layout} {line : Nat} {xs ys : List Text} :
    l.addLines line (xs ++ ys) = .ok l' ↔
      ∃ l₁, l.addLines line xs = .ok l₁ ∧ l₁.addLines (line + xs.length) ys = .ok l' := by
  induction xs generalizing l line with
  | nil => simp [addLines]
  | cons t ts ih =>
    rw [List.cons_append, addLines_cons_eq_ok]
    constructor
    · rintro ⟨l₁, first, rest⟩
      obtain ⟨l₂, hl₂, rest⟩ := ih.mp rest
      refine ⟨l₂, addLines_cons_eq_ok.mpr ⟨l₁, first, hl₂⟩, ?_⟩
      rwa [List.length_cons, Nat.add_comm ts.length, ← Nat.add_assoc]
    · rintro ⟨l₂, front, rest⟩
      obtain ⟨l₁, first, hl₂⟩ := addLines_cons_eq_ok.mp front
      refine ⟨l₁, first, ih.mpr ⟨l₂, hl₂, ?_⟩⟩
      rwa [List.length_cons, Nat.add_comm ts.length, ← Nat.add_assoc] at rest

/-! ## Cells -/

theorem toList_append (l : Layout) (cells : List Cell) : (l.append cells).cells.toList = l.cells.toList ++ cells := by
  simp [append]

theorem append_nil (l : Layout) : l.append [] = l := by simp [append]

theorem append_append (l : Layout) (xs ys : List Cell) : (l.append xs).append ys = l.append (xs ++ ys) := by
  simp [append, ← Array.toList_inj]

theorem cells_names {l l' : Layout} {names : List Text} (h : names.foldlM define l = .ok l') :
    l'.cells = l.cells := by
  induction names generalizing l with
  | nil => exact Except.ok.inj h ▸ rfl
  | cons name names ih =>
    rw [List.foldlM_cons] at h
    obtain ⟨l₁, first, rest⟩ := bind_eq_ok.mp h
    obtain ⟨-, rfl⟩ := define_eq_ok first
    rw [ih rest]

theorem prefix_addLine {l l' : Layout} {line : Nat} {t : Text} (h : l.addLine line t = .ok l') :
    l.cells.toList <+: l'.cells.toList := by
  obtain ⟨l₁, names, ⟨-, rfl⟩ | ⟨st, -, placed⟩⟩ := addLine_eq_ok h
  · exact cells_names names ▸ List.prefix_refl _
  · obtain ⟨cells, rfl⟩ := place_eq_ok placed
    rw [toList_append, cells_names names]
    exact List.prefix_append _ _

theorem prefix_addLines {l l' : Layout} {line : Nat} {ts : List Text} (h : l.addLines line ts = .ok l') :
    l.cells.toList <+: l'.cells.toList := by
  induction ts generalizing l line with
  | nil => exact Except.ok.inj h ▸ List.prefix_refl _
  | cons t ts ih =>
    obtain ⟨l₁, first, rest⟩ := addLines_cons_eq_ok.mp h
    exact (prefix_addLine first).trans (ih rest)

/-! ## Labels -/

section
variable {l l' : Layout} {x : Text} {p : Word}

theorem lookup_define {name : Text} (h : l.define name = .ok l') :
    l'.symbols.lookup x = some p ↔ l.symbols.lookup x = some p ∨ x = upper name ∧ p = l.address := by
  obtain ⟨free, rfl⟩ := define_eq_ok h
  rw [List.lookup_cons]
  by_cases hx : x = upper name
  · rw [hx, beq_self_eq_true, free]
    simp [eq_comm]
  · rw [beq_eq_false_iff_ne.mpr hx]
    simp [hx]

theorem lookup_names {names : List Text} (h : names.foldlM define l = .ok l') :
    l'.symbols.lookup x = some p ↔
      l.symbols.lookup x = some p ∨ (∃ name ∈ names, x = upper name) ∧ p = l.address := by
  induction names generalizing l with
  | nil => simp [← Except.ok.inj h]
  | cons name names ih =>
    rw [List.foldlM_cons] at h
    obtain ⟨l₁, first, rest⟩ := bind_eq_ok.mp h
    have here : l₁.address = l.address := by
      obtain ⟨-, rfl⟩ := define_eq_ok first
      rfl
    rw [ih rest, lookup_define first, here, or_assoc, ← or_and_right]
    simp

theorem lookup_addLine {line : Nat} {t : Text} (h : l.addLine line t = .ok l') :
    l'.symbols.lookup x = some p ↔
      l.symbols.lookup x = some p ∨ (∃ name ∈ (splitLine t).1, x = upper name) ∧ p = l.address := by
  obtain ⟨l₁, names, ⟨-, rfl⟩ | ⟨st, -, placed⟩⟩ := addLine_eq_ok h
  · exact lookup_names names
  · obtain ⟨cells, rfl⟩ := place_eq_ok placed
    exact (lookup_names names : l₁.symbols.lookup x = some p ↔ _)

/-- The labels behind lines are those before them and, for each of the lines, its own with the address where it
starts. -/
theorem lookup_addLines {line : Nat} {ts : List Text} (h : l.addLines line ts = .ok l') :
    l'.symbols.lookup x = some p ↔
      l.symbols.lookup x = some p ∨
        ∃ pre t post l₁, ts = pre ++ t :: post ∧ l.addLines line pre = .ok l₁ ∧
          (∃ name ∈ (splitLine t).1, x = upper name) ∧ p = l₁.address := by
  induction ts generalizing l line with
  | nil => simp [← Except.ok.inj h]
  | cons t ts ih =>
    obtain ⟨l₁, first, rest⟩ := addLines_cons_eq_ok.mp h
    rw [ih rest, lookup_addLine first, or_assoc]
    refine or_congr_right ⟨?_, ?_⟩
    · rintro (own | ⟨pre, u, post, l₂, rfl, front, own⟩)
      · exact ⟨[], t, ts, l, rfl, rfl, own⟩
      · exact ⟨t :: pre, u, post, l₂, rfl, addLines_cons_eq_ok.mpr ⟨l₁, first, front⟩, own⟩
    · rintro ⟨_ | ⟨u, pre⟩, v, post, l₂, split, front, own⟩
      · obtain ⟨rfl, rfl⟩ := List.cons.inj split
        cases Except.ok.inj front
        exact .inl own
      · obtain ⟨rfl, rfl⟩ := List.cons.inj split
        obtain ⟨l₃, first', front⟩ := addLines_cons_eq_ok.mp front
        cases Except.ok.inj (first.symm.trans first')
        exact .inr ⟨pre, v, post, l₂, rfl, front, own⟩

end

/-! ## The second pass -/

section
variable {symbols : List (Text × Word)} {line : Nat}

theorem resolve_cell {v : Value} {w : Word} : resolve symbols (v.cell line) = .ok w ↔ v.word? symbols = some w := by
  cases v with
  | number n => exact ⟨fun h => congrArg some (Except.ok.inj h), fun h => congrArg Except.ok (Option.some.inj h)⟩
  | label name =>
    simp only [Value.cell, resolve, Value.word?]
    cases symbols.lookup (upper name) <;> simp

theorem mapM_resolve_words (ws : List Word) : (ws.map Cell.word).mapM (resolve symbols) = .ok ws := by
  rw [List.mapM_map]
  exact (mapM_eq_ok_of_forall (g := id) fun w _ => rfl).trans (by rw [List.map_id])

theorem mapM_resolve_cells {vs : List Value} {ws : List Word}
    (h : (vs.map (·.cell line)).mapM (resolve symbols) = .ok ws) : vs.map (·.word? symbols) = ws.map some := by
  induction vs generalizing ws with
  | nil => rw [mapM_nil_eq_ok.mp h]; rfl
  | cons v vs ih =>
    obtain ⟨w, ws, hw, hws, rfl⟩ := mapM_cons_eq_ok.mp h
    rw [List.map_cons, List.map_cons, ih hws, resolve_cell.mp hw]

end

end Layout

theorem assemble_eq_ok {source : Text} {words : List Word} (h : assemble source = .ok words) :
    ∃ l, Layout.addLines {} 1 (splitLines source) = .ok l ∧
      l.cells.toList.mapM (Layout.resolve l.symbols) = .ok words := by
  obtain ⟨l, hl, h⟩ := bind_eq_ok.mp h
  refine ⟨l, hl, ?_⟩
  split at h
  · cases h
  · exact h

/-- **The words of a program are those of its lines**, one behind the other: a line that stands behind the lines `pre`
has its words behind theirs, and each word comes from a cell that the line lays out. -/
theorem words_of_line {pre post : List Text} {t : Text} {l : Layout} {words : List Word}
    (hl : Layout.addLines {} 1 (pre ++ t :: post) = .ok l)
    (hw : l.cells.toList.mapM (Layout.resolve l.symbols) = .ok words) :
    ∃ l₀ l₁ cells before ws behind, Layout.addLines {} 1 pre = .ok l₀ ∧ l₀.addLine (1 + pre.length) t = .ok l₁ ∧
      l₁.cells.toList = l₀.cells.toList ++ cells ∧ cells.mapM (Layout.resolve l.symbols) = .ok ws ∧
      before.length = l₀.cells.size ∧ words = before ++ (ws ++ behind) := by
  obtain ⟨l₀, front, rest⟩ := Layout.addLines_append_eq_ok.mp hl
  obtain ⟨l₁, own, rest⟩ := Layout.addLines_cons_eq_ok.mp rest
  obtain ⟨cells, hcells⟩ := Layout.prefix_addLine own
  obtain ⟨others, hothers⟩ := Layout.prefix_addLines rest
  rw [← hothers, ← hcells, List.append_assoc] at hw
  obtain ⟨before, both, hbefore, hboth, rfl⟩ := mapM_append_eq_ok.mp hw
  obtain ⟨ws, behind, hws, -, rfl⟩ := mapM_append_eq_ok.mp hboth
  refine ⟨l₀, l₁, cells, before, ws, behind, front, own, hcells.symm, hws, ?_, rfl⟩
  rw [length_of_mapM_eq_ok hbefore, Array.length_toList]

end Dcpu16
