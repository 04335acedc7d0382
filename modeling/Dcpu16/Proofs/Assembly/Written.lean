import Dcpu16.Proofs.Assembly.Accepted
import Dcpu16.Proofs.Assembly.Passes
import Dcpu16.Proofs.Core

/-!
# Instructions are assembled as written

The words of an instruction statement are one instruction with the operation of its mnemonic, and the machine that
finds them at PC resolves the operands to the places that their texts denote (`assembled_as_written`).
-/

namespace Dcpu16

/-! ## What is claimed of the words of a statement -/

/-- The words of a basic instruction, with the texts of its operands and the arguments read from them. -/
structure BasicWords (symbols : List (Text × Word)) (op : BasicOp) (bText aText : Text) (b a : Argument) (w : Word)
    (next : List Word) : Prop where
  parsedB : Argument.parse .destination bText = .ok b
  parsedA : Argument.parse .source aText = .ok a
  allowedB : b.form.IsDestination
  allowedA : a.form.IsSource
  decoded : Instruction.decode w = .ok (.basic op b.form a.form)
  length : (w :: next).length = w.instructionLength
  /-- The next word of the source stands before that of the destination. -/
  values : (a.next.toList ++ b.next.toList).map (·.word? symbols) = next.map some
  placeA (s : Core) (h : s.Holds (w :: next)) :
    Meaning.place? symbols .source s.past.regs aText = some (s.past.resolve a.form).1
  /-- The registers are those that resolving the source leaves: it may have moved SP. -/
  placeB (s : Core) (h : s.Holds (w :: next)) :
    Meaning.place? symbols .destination (s.past.after a.form).regs bText =
      some ((s.past.after a.form).resolve b.form).1

/-- The words of a special instruction, with the text of its operand and the argument read from it. -/
structure SpecialWords (symbols : List (Text × Word)) (op : SpecialOp) (aText : Text) (a : Argument) (w : Word)
    (next : List Word) : Prop where
  parsed : Argument.parse .source aText = .ok a
  allowed : a.form.IsSource
  decoded : Instruction.decode w = .ok (.special op a.form)
  length : (w :: next).length = w.instructionLength
  values : a.next.toList.map (·.word? symbols) = next.map some
  place (s : Core) (h : s.Holds (w :: next)) :
    Meaning.place? symbols .source s.past.regs aText = some (s.past.resolve a.form).1

/-- **The words of a statement as it is written**: if its first word is the mnemonic of an operation, its items are
the operands and its words are those of the instruction. -/
structure AsWritten (symbols : List (Text × Word)) (t : Text) (ws : List Word) : Prop where
  basic (op : BasicOp) (h : BasicOp.ofMnemonic? (upper (breakAtBlank t).1) = some op) :
    ∃ bText aText b a w next, splitItems (trim (breakAtBlank t).2) = [bText, aText] ∧ ws = w :: next ∧
      BasicWords symbols op bText aText b a w next
  special (op : SpecialOp) (h : SpecialOp.ofMnemonic? (upper (breakAtBlank t).1) = some op) :
    ∃ aText a w next, splitItems (trim (breakAtBlank t).2) = [aText] ∧ ws = w :: next ∧
      SpecialWords symbols op aText a w next

/-- How many words lines are laid out to. -/
def laidOut? (lines : List Text) : Option Nat :=
  match Layout.addLines {} 1 lines with
  | .ok l => some l.cells.size
  | .error _ => none

/-- A label, in upper case, stands in front of a line, and the address is what the lines before it are laid out to. -/
def LabelAt (lines : List Text) (label : Text) (p : Word) : Prop :=
  ∃ pre t post size, lines = pre ++ t :: post ∧ laidOut? pre = some size ∧
    (∃ name ∈ (splitLine t).1, label = upper name) ∧ p = UInt16.ofNat size

/-! ## Operands at PC -/

namespace Argument

section
variable {symbols : List (Text × Word)} {pos : Position} {a : Argument}

theorem Fits.length_next (fits : a.Fits pos) : a.next.toList.length = a.form.extraWords := by
  rw [Operand.extraWords, ← fits.next_isSome]
  cases a.next <;> rfl

/-- The next word of an argument that fits is the first of the words at PC, and resolving the form takes it. -/
theorem Fits.holds (fits : a.Fits pos) {s : Core} {xs ys : List Word}
    (hx : xs.map some = a.next.toList.map (·.word? symbols)) (hs : s.Holds (xs ++ ys)) :
    (∀ v ∈ a.next, v.word? symbols = some s.fetch) ∧ (s.after a.form).Holds ys := by
  have taken := fits.next_isSome
  cases hn : a.next with
  | none =>
    rw [hn] at taken hx
    rw [List.map_eq_nil_iff.mp hx] at hs
    exact ⟨by simp, hs.after taken.symm⟩
  | some v =>
    rw [hn] at taken hx
    obtain ⟨x, rfl, word⟩ := List.map_eq_singleton_iff.mp hx
    refine ⟨?_, hs.after_of_takesWord taken.symm⟩
    intro u hu
    rw [← Option.mem_some_iff.mp hu, (Core.holds_cons.mp hs).1]
    exact word.symm

end

end Argument

/-! ## Words of instructions -/

section
variable {symbols : List (Text × Word)} {line : Nat} {ws : List Word}

theorem basicWords_of_cells {op : BasicOp} {bText aText : Text} {b a : Argument}
    (hb : Argument.parse .destination bText = .ok b) (ha : Argument.parse .source aText = .ok a)
    (hw : (Cell.word (Instruction.basic op b.form a.form).encode ::
      (a.next.toList ++ b.next.toList).map (·.cell line)).mapM (Layout.resolve symbols) = .ok ws) :
    ∃ w next, ws = w :: next ∧ BasicWords symbols op bText aText b a w next := by
  obtain ⟨w, next, head, tail, rfl⟩ := mapM_cons_eq_ok.mp hw
  have readsB : b.ReadsAs symbols .destination _ := Argument.readsAs_of_parse hb
  have readsA : a.ReadsAs symbols .source _ := Argument.readsAs_of_parse ha
  have values := Layout.mapM_resolve_cells tail
  have decoded : Instruction.decode w = .ok (.basic op b.form a.form) :=
    Except.ok.inj head ▸ Instruction.decode_encode ⟨readsB.allowed, readsA.allowed⟩
  have parts := values.symm
  rw [List.map_append, List.map_eq_append_iff] at parts
  obtain ⟨xs, ys, rfl, hx, hy⟩ := parts
  have sourceNext {s : Core} (h : s.Holds (w :: (xs ++ ys))) := readsA.toFits.holds hx (Core.holds_cons.mp h).2
  refine ⟨w, xs ++ ys, rfl, hb, ha, readsB.allowed, readsA.allowed, decoded, ?_, values, ?_, ?_⟩
  · have lengths := congrArg List.length values
    rw [List.length_map, List.length_map, List.length_append, readsA.length_next, readsB.length_next] at lengths
    rw [← Instruction.size_of_decode decoded, List.length_cons, Instruction.size, Instruction.extraWords, ← lengths]
    omega
  · intro s h
    exact readsA.resolved s.past (sourceNext h).1
  · intro s h
    have rest := (sourceNext h).2
    rw [← List.append_nil ys] at rest
    exact readsB.resolved _ (readsB.toFits.holds hy rest).1

theorem specialWords_of_cells {op : SpecialOp} {aText : Text} {a : Argument}
    (ha : Argument.parse .source aText = .ok a)
    (hw : (Cell.word (Instruction.special op a.form).encode :: a.next.toList.map (·.cell line)).mapM
      (Layout.resolve symbols) = .ok ws) :
    ∃ w next, ws = w :: next ∧ SpecialWords symbols op aText a w next := by
  obtain ⟨w, next, head, tail, rfl⟩ := mapM_cons_eq_ok.mp hw
  have reads : a.ReadsAs symbols .source _ := Argument.readsAs_of_parse ha
  have values := Layout.mapM_resolve_cells tail
  have decoded : Instruction.decode w = .ok (.special op a.form) :=
    Except.ok.inj head ▸ Instruction.decode_encode reads.allowed
  refine ⟨w, next, rfl, ha, reads.allowed, decoded, ?_, values, ?_⟩
  · have lengths := congrArg List.length values
    rw [List.length_map, List.length_map, reads.length_next] at lengths
    rw [← Instruction.size_of_decode decoded, List.length_cons, Instruction.size, Instruction.extraWords, ← lengths]
    omega
  · intro s h
    have rest := (Core.holds_cons.mp h).2
    rw [← List.append_nil next] at rest
    exact reads.resolved s.past (reads.toFits.holds values.symm rest).1

end

/-! ## Whole programs -/

theorem laidOut?_of_addLines {lines : List Text} {l : Layout} (h : Layout.addLines {} 1 lines = .ok l) :
    laidOut? lines = some l.cells.size := by
  simp only [laidOut?, h]

/-- The cells of a line that holds an instruction resolve to the words of the instruction. -/
theorem asWritten_of_addLine {symbols : List (Text × Word)} {l₀ l₁ : Layout} {line : Nat} {t : Text}
    (h : l₀.addLine line t = .ok l₁) {cells : List Cell} (hcells : l₁.cells.toList = l₀.cells.toList ++ cells)
    {ws : List Word} (hws : cells.mapM (Layout.resolve symbols) = .ok ws) : AsWritten symbols (splitLine t).2 ws := by
  obtain ⟨l, names, ⟨empty, -⟩ | ⟨st, hst, placed⟩⟩ := Layout.addLine_eq_ok h
  · -- without a statement there is no mnemonic
    have noBasic : BasicOp.ofMnemonic? (upper (breakAtBlank []).1) = none := by decide
    have noSpecial : SpecialOp.ofMnemonic? (upper (breakAtBlank []).1) = none := by decide
    rw [empty]
    constructor
    · intro op hop
      cases noBasic.symm.trans hop
    · intro op hop
      cases noSpecial.symm.trans hop
  · have own {here : List Cell} (hl : l₁ = l.append here) : here = cells := by
      rw [hl, Layout.toList_append, Layout.cells_names names] at hcells
      exact List.append_cancel_left hcells
    constructor
    · intro op hop
      obtain ⟨bText, aText, b, a, items, hb, ha, rfl⟩ := Statement.parse_of_basicMnemonic hst hop
      rw [← own (Except.ok.inj placed).symm] at hws
      obtain ⟨w, next, rfl, written⟩ := basicWords_of_cells hb ha hws
      exact ⟨bText, aText, b, a, w, next, items, rfl, written⟩
    · intro op hop
      obtain ⟨aText, a, items, ha, rfl⟩ := Statement.parse_of_specialMnemonic hst hop
      rw [← own (Except.ok.inj placed).symm] at hws
      obtain ⟨w, next, rfl, written⟩ := specialWords_of_cells ha hws
      exact ⟨aText, a, w, next, items, rfl, written⟩

theorem lookup_iff_labelAt {lines : List Text} {l : Layout} (h : Layout.addLines {} 1 lines = .ok l) (label : Text)
    (p : Word) : l.symbols.lookup label = some p ↔ LabelAt lines label p := by
  rw [Layout.lookup_addLines h]
  constructor
  · rintro (none | ⟨pre, t, post, l₁, rfl, front, own, rfl⟩)
    · cases none
    · exact ⟨pre, t, post, l₁.cells.size, rfl, laidOut?_of_addLines front, own, rfl⟩
  · rintro ⟨pre, t, post, size, rfl, laid, own, rfl⟩
    obtain ⟨l₁, front, -⟩ := Layout.addLines_append_eq_ok.mp h
    rw [laidOut?_of_addLines front] at laid
    exact .inr ⟨pre, t, post, l₁, rfl, front, own, congrArg UInt16.ofNat (Option.some.inj laid).symm⟩

/-- **Instructions are assembled as written.** In a program that is assembled, each line has its words behind those
of the lines before it, and if its statement is an instruction, they are the words of that instruction as written.
The labels in it mean the addresses at which they stand. -/
theorem assembled_as_written {source : Text} {words : List Word} (h : assemble source = .ok words) :
    ∃ symbols : List (Text × Word),
      (∀ label p, symbols.lookup label = some p ↔ LabelAt (splitLines source) label p) ∧
      ∀ pre t post, splitLines source = pre ++ t :: post →
        ∃ before ws behind, words = before ++ (ws ++ behind) ∧ laidOut? pre = some before.length ∧
          laidOut? (pre ++ [t]) = some (before.length + ws.length) ∧ AsWritten symbols (splitLine t).2 ws := by
  obtain ⟨l, hl, hw⟩ := assemble_eq_ok h
  refine ⟨l.symbols, lookup_iff_labelAt hl, ?_⟩
  intro pre t post split
  rw [split] at hl
  obtain ⟨l₀, l₁, cells, before, ws, behind, front, own, hcells, hws, length, rfl⟩ := words_of_line hl hw
  have both : Layout.addLines {} 1 (pre ++ [t]) = .ok l₁ :=
    Layout.addLines_append_eq_ok.mpr ⟨l₀, front, Layout.addLines_cons_eq_ok.mpr ⟨l₁, own, rfl⟩⟩
  refine ⟨before, ws, behind, rfl, ?_, ?_, asWritten_of_addLine own hcells hws⟩
  · rw [laidOut?_of_addLines front, length]
  · have sizes := congrArg List.length hcells
    rw [List.length_append, Array.length_toList, Array.length_toList] at sizes
    rw [laidOut?_of_addLines both, sizes, length, length_of_mapM_eq_ok hws]

/-- A program of one line, whose statement names the label that the line starts with. -/
theorem assembled_as_written_of_loop :
    assemble "loop: SET [loop + A], 0x1234".toList = .ok [0x7e01, 0x1234, 0x0000] ∧
      ∃ symbols : List (Text × Word), symbols.lookup "LOOP".toList = some 0 ∧
        AsWritten symbols "SET [loop + A], 0x1234".toList [0x7e01, 0x1234, 0x0000] := by
  have assembled : assemble "loop: SET [loop + A], 0x1234".toList = .ok [0x7e01, 0x1234, 0x0000] :=
    eq_ok_of_toOption (by decide +kernel)
  have single : splitLines "loop: SET [loop + A], 0x1234".toList =
      [] ++ "loop: SET [loop + A], 0x1234".toList :: [] := by decide
  have parts : splitLine "loop: SET [loop + A], 0x1234".toList =
      (["loop".toList], "SET [loop + A], 0x1234".toList) := by decide +kernel
  have size : laidOut? ([] ++ ["loop: SET [loop + A], 0x1234".toList]) = some 3 := by decide +kernel
  obtain ⟨symbols, labels, lines⟩ := assembled_as_written assembled
  refine ⟨assembled, symbols, (labels _ _).mpr ⟨[], _, [], 0, single, rfl, ⟨"loop".toList, ?_, rfl⟩, rfl⟩, ?_⟩
  · rw [parts]
    exact List.mem_singleton_self _
  · obtain ⟨before, ws, behind, words, front, both, written⟩ := lines _ _ _ single
    have none : before = [] := List.eq_nil_of_length_eq_zero (Option.some.inj front).symm
    have own : 3 = before.length + ws.length := Option.some.inj (size.symm.trans both)
    have lengths := congrArg List.length words
    simp only [List.length_append, List.length_cons, List.length_nil] at lengths
    have rest : behind = [] := List.eq_nil_of_length_eq_zero (by omega)
    rw [none, rest, List.nil_append, List.append_nil] at words
    rw [parts, ← words] at written
    exact written

end Dcpu16
