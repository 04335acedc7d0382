import Dcpu16.Proofs.Assembly.Passes

/-!
# The steps of a program

What is laid out is a sequence of labels and statements. The lines that they stand in only count for the place of an
error, so programs with the same labels and statements in the same order have the same words, whatever their lines are
(`toOption_assemble_of_steps`).
-/

namespace Dcpu16

/-- A label that is defined, or a statement that is placed. -/
inductive Step
  | label (name : Text)
  | statement (t : Text)
  deriving DecidableEq, Repr

/-- What is done for a line: its labels, then its statement. -/
def lineSteps (t : Text) : List Step :=
  (splitLine t).1.map .label ++ if (splitLine t).2.isEmpty then [] else [.statement (splitLine t).2]

/-- A cell without the number of its line. -/
def Cell.unnumbered : Cell → Cell
  | word w => word w
  | reference label _ => reference label 0

namespace Layout

/-- A layout without the numbers of lines. -/
def unnumbered (l : Layout) : Layout := { l with cells := l.cells.map Cell.unnumbered }

/-- A step, which does not know its line. -/
def perform (l : Layout) : Step → Option Layout
  | .label name => (l.define name).toOption
  | .statement t => (Statement.parse t >>= l.place 0).toOption

section
variable (l : Layout)

theorem size_unnumbered : l.unnumbered.cells.size = l.cells.size := Array.size_map

theorem address_unnumbered : l.unnumbered.address = l.address := by rw [address, size_unnumbered, address]

theorem append_unnumbered (cells : List Cell) :
    (l.append cells).unnumbered = l.unnumbered.append (cells.map Cell.unnumbered) := by
  simp [append, unnumbered, ← Array.toList_inj]

theorem define_unnumbered (name : Text) : (l.unnumbered.define name) = (l.define name).map unnumbered := by
  unfold define
  rw [address_unnumbered]
  split
  · rfl
  · show (if (l.symbols.lookup (upper name)).isSome then _ else _) = _
    split <;> rfl

theorem place_unnumbered (line : Nat) (st : Statement) :
    l.unnumbered.place 0 st = (l.place line st).map unnumbered := by
  have cells (vs : List Value) : (vs.map (·.cell line)).map Cell.unnumbered = vs.map (·.cell 0) := by
    rw [List.map_map]
    exact List.map_congr_left fun v _ => by cases v <;> rfl
  have size := size_unnumbered l
  cases st with
  | data vs => simp only [place, Except.map, append_unnumbered, cells]
  | origin target =>
    simp only [place, size, address_unnumbered]
    split
    · rfl
    · simp only [Except.map, append_unnumbered, List.map_replicate]
      rfl
  | basic op b a =>
    simp only [place, Except.map, append_unnumbered, List.map_cons, cells]
    rfl
  | special op a =>
    simp only [place, Except.map, append_unnumbered, List.map_cons, cells]
    rfl

end

theorem names_steps (l : Layout) (names : List Text) :
    (names.map Step.label).foldlM perform l.unnumbered = ((names.foldlM define l).map unnumbered).toOption := by
  induction names generalizing l with
  | nil => rfl
  | cons name names ih =>
    rw [List.map_cons, List.foldlM_cons, List.foldlM_cons, perform, define_unnumbered]
    cases l.define name with
    | error p => rfl
    | ok l => exact ih l

/-- A line is laid out step by step. -/
theorem addLine_steps (l : Layout) (line : Nat) (t : Text) :
    (lineSteps t).foldlM perform l.unnumbered = ((l.addLine line t).map unnumbered).toOption := by
  have own : l.addLine line t = ((splitLine t).1.foldlM define l >>= fun l =>
      if (splitLine t).2.isEmpty then .ok l else Statement.parse (splitLine t).2 >>= l.place line) := rfl
  rw [lineSteps, List.foldlM_append, names_steps, own]
  cases (splitLine t).1.foldlM define l with
  | error p => rfl
  | ok l =>
    show List.foldlM perform l.unnumbered (if _ then _ else _) =
      ((if _ then _ else _ : Except Problem Layout).map unnumbered).toOption
    split
    · rfl
    · show (perform l.unnumbered (.statement (splitLine t).2) >>= fun l => some l) = _
      rw [perform, Option.bind_eq_bind, Option.bind_fun_some]
      cases Statement.parse (splitLine t).2 with
      | error p => rfl
      | ok st => exact congrArg Except.toOption (place_unnumbered l line st)

/-- Lines are laid out step by step, wherever one ends and the next one starts. -/
theorem addLines_steps (l : Layout) (line : Nat) (ts : List Text) :
    (ts.flatMap lineSteps).foldlM perform l.unnumbered = ((l.addLines line ts).map unnumbered).toOption := by
  induction ts generalizing l line with
  | nil => rfl
  | cons t ts ih =>
    rw [List.flatMap_cons, List.foldlM_append, addLine_steps l line, addLines]
    cases l.addLine line t with
    | error p => rfl
    | ok l => exact ih l (line + 1)

/-- The words of a program that is laid out, if it fits and the labels are defined. -/
def link (l : Layout) : Option (List Word) :=
  if Word.count < l.cells.size then none else l.cells.toList.mapM fun c => (resolve l.symbols c).toOption

theorem link_unnumbered (l : Layout) : l.unnumbered.link =
    (if Word.count < l.cells.size then .error (.tooLarge l.cells.size)
    else l.cells.toList.mapM (resolve l.symbols)).toOption := by
  have word (c : Cell) : (resolve l.symbols c.unnumbered).toOption = (resolve l.symbols c).toOption := by
    cases c with
    | word w => rfl
    | reference label line =>
      simp only [Cell.unnumbered, resolve]
      cases l.symbols.lookup label <;> rfl
  rw [link, size_unnumbered, apply_ite Except.toOption, toOption_mapM]
  congr 1
  show (l.cells.map Cell.unnumbered).toList.mapM (fun c => (resolve l.symbols c).toOption) = _
  rw [Array.toList_map, List.mapM_map]
  exact congrArg (l.cells.toList.mapM ·) (funext word)

end Layout

theorem toOption_assemble (source : Text) : (assemble source).toOption =
    ((splitLines source).flatMap lineSteps).foldlM Layout.perform {} >>= Layout.link := by
  have steps := Layout.addLines_steps {} 1 (splitLines source)
  have empty : Layout.unnumbered {} = {} := by simp [Layout.unnumbered]
  rw [empty] at steps
  rw [steps, assemble]
  cases Layout.addLines {} 1 (splitLines source) with
  | error e => rfl
  | ok l => exact (Layout.link_unnumbered l).symm

/-- **The lines of a program make no difference to its words.** -/
theorem toOption_assemble_of_steps {source source' : Text}
    (h : (splitLines source').flatMap lineSteps = (splitLines source).flatMap lineSteps) :
    (assemble source').toOption = (assemble source).toOption := by
  rw [toOption_assemble, toOption_assemble, h]

end Dcpu16
