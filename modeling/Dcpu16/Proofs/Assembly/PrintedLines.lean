import Dcpu16.Assembly
import Dcpu16.Proofs.Assembly.Printed

/-!
# Printed lines are assembled again

Each line that is printed for the words at an address is one statement without labels. It is assembled to those
words again, unless the source is a next word that fits into the instruction word: then the literal takes its
place (`addLine_wordsText`).
-/

namespace Dcpu16

/-! ## Statements -/

namespace Statement

/-- A name is followed by a blank and text that is trimmed. -/
theorem trim_rest {rest : Text} (h : Trimmed rest) : trim (' ' :: rest) = rest := by
  rw [trim_cons_of_isBlank (by decide), trim_of_trimmed h]

theorem parse_of_name {word rest : Text} (hw : ∀ c ∈ word, isBlank c = false) (hn : upper word ∉ directives)
    (ht : Trimmed rest) :
    (∀ op, BasicOp.ofMnemonic? (upper word) = some op → parse (word ++ ' ' :: rest) = parseBasic op rest) ∧
      ∀ op, SpecialOp.ofMnemonic? (upper word) = some op → parse (word ++ ' ' :: rest) = parseSpecial op rest := by
  have broken := breakAtBlank_append_cons hw (by decide : isBlank ' ') rest
  have parsed := @parse_of_not_directive (word ++ ' ' :: rest) (by rwa [broken])
  rwa [broken, trim_rest ht] at parsed

theorem parse_basic (op : BasicOp) {b a : Text} (hb : OperandLike b) (ha : OperandLike a) :
    parse (op.mnemonic.toList ++ ' ' :: b ++ ',' :: ' ' :: a) = parseBasic op (b ++ ',' :: ' ' :: a) := by
  have name : (∀ c ∈ op.mnemonic.toList, isBlank c = false) ∧ upper op.mnemonic.toList = op.mnemonic.toList ∧
      upper op.mnemonic.toList ∉ directives := by cases op <;> decide
  have trimmed : Trimmed (b ++ ',' :: ' ' :: a) := Trimmed.append_append hb.2.1 ha.2.1 hb.1 ha.1 [',', ' ']
  rw [List.append_assoc, List.cons_append]
  refine (parse_of_name name.1 name.2.2 trimmed).1 op ?_
  rw [name.2.1, BasicOp.ofMnemonic?_mnemonic]

theorem parse_special (op : SpecialOp) {a : Text} (ha : OperandLike a) :
    parse (op.mnemonic.toList ++ ' ' :: a) = parseSpecial op a := by
  have name : (∀ c ∈ op.mnemonic.toList, isBlank c = false) ∧ upper op.mnemonic.toList = op.mnemonic.toList ∧
      upper op.mnemonic.toList ∉ directives := by cases op <;> decide
  refine (parse_of_name name.1 name.2.2 ha.2.1).2 op ?_
  rw [name.2.1, SpecialOp.ofMnemonic?_mnemonic]

theorem parse_data {rest : Text} (h : Trimmed rest) : parse ("DAT ".toList ++ rest) = parseData rest := by
  have plain : ∀ c ∈ "DAT".toList, isBlank c = false := by decide
  have broken := breakAtBlank_append_cons plain (by decide : isBlank ' ') rest
  have split : "DAT ".toList ++ rest = "DAT".toList ++ ' ' :: rest := rfl
  have name : upper "DAT".toList = "DAT".toList := by decide
  simp only [parse, split, broken, name, trim_rest h, true_or, if_true]

theorem parseBasic_of_items (op : BasicOp) {b a : Text} (hb : OperandLike b) (ha : OperandLike a) {x y : Argument}
    (hx : Argument.parse .destination b = .ok x) (hy : Argument.parse .source a = .ok y) :
    parseBasic op (b ++ ',' :: ' ' :: a) = .ok (.basic op x y) := by
  have items : splitItems (b ++ ',' :: ' ' :: a) = [b, a] := by
    have joined : splitItems ([',', ' '].intercalate [b, a]) = [b, a] :=
      splitItems_intercalate (by simp [hb.isItem, ha.isItem]) (by simp)
    simpa using joined
  simp only [parseBasic, items, hx, hy]
  rfl

theorem parseSpecial_of_item (op : SpecialOp) {a : Text} (ha : OperandLike a) {y : Argument}
    (hy : Argument.parse .source a = .ok y) : parseSpecial op a = .ok (.special op y) := by
  have items : splitItems a = [a] := by
    have joined : splitItems ([',', ' '].intercalate [a]) = [a] :=
      splitItems_intercalate (by simp [ha.isItem]) (by simp)
    simpa using joined
  simp only [parseSpecial, items, hy]
  rfl

theorem parseItem_numeral (w : Word) : parseItem w.numeral = .ok [.number w] := by
  have value : parseItem w.numeral = (do return [← Value.parse w.numeral]) := rfl
  rw [value, parse_numeral]
  rfl

theorem parseData_numerals {ws : List Word} (hne : ws ≠ []) :
    parseData ([',', ' '].intercalate (ws.map Word.numeral)) = .ok (.data (ws.map .number)) := by
  have items : splitItems ([',', ' '].intercalate (ws.map Word.numeral)) = ws.map Word.numeral :=
    splitItems_intercalate (by simp [isItem_numeral]) (by simpa using hne)
  have visible : (ws.map Word.numeral).all List.isEmpty = false := by
    obtain ⟨w, ws, rfl⟩ := List.exists_cons_of_ne_nil hne
    rfl
  have values : (ws.map Word.numeral).mapM parseItem = .ok (ws.map fun w => [.number w]) := by
    rw [List.mapM_map]
    exact mapM_eq_ok_of_forall fun w _ => parseItem_numeral w
  simp only [parseData, items, visible, values]
  simp [bind, Except.bind, pure, Except.pure, List.flatten_eq_flatMap, List.flatMap_map, ← List.map_eq_flatMap]

end Statement

/-! ## Operands behind an instruction word -/

namespace Operand

/-- What a printed source is read as, with the next words that are left: a next word that is small enough becomes
a literal and is gone. -/
def reread (a : Operand) (next : List Word) : Operand × List Word :=
  match if a = .next then shortLiteral? (next.headD 0) else none with
  | some l => (l, next.drop 1)
  | none => (a, next)

theorem takesWord_of_shortLiteral? {v : Word} {l : Operand} (h : shortLiteral? v = some l) : l.takesWord = false := by
  unfold shortLiteral? at h
  split at h <;> cases h
  rfl

theorem reread_of_short {v : Word} {l : Operand} (h : shortLiteral? v = some l) (rest : List Word) :
    reread .next (v :: rest) = (l, rest) := by
  simp only [reread, if_true, List.headD_cons, h, List.drop_one, List.tail_cons]

theorem reread_of_not_short {a : Operand} {next : List Word} (h : a = .next → shortLiteral? (next.headD 0) = none) :
    a.reread next = (a, next) := by
  unfold reread
  by_cases ha : a = .next
  · simp only [if_pos ha, h ha]
  · simp only [if_neg ha]

/-- Either a source is a next word that becomes a literal, or it stays with its next words. -/
theorem reread_cases {a : Operand} {next : List Word} (h : a.extraWords ≤ next.length) :
    (∃ v rest l, a = .next ∧ next = v :: rest ∧ shortLiteral? v = some l ∧ a.reread next = (l, rest)) ∨
      ((a = .next → shortLiteral? (next.headD 0) = none) ∧ a.reread next = (a, next)) := by
  by_cases hs : a = .next → shortLiteral? (next.headD 0) = none
  · exact .inr ⟨hs, reread_of_not_short hs⟩
  · simp only [Classical.not_imp, ← Option.isSome_iff_ne_none, Option.isSome_iff_exists] at hs
    obtain ⟨rfl, l, hl⟩ := hs
    cases next with
    | nil => cases h
    | cons v rest => exact .inl ⟨v, rest, l, rfl, rfl, hl, reread_of_short hl rest⟩

section
variable {a : Operand} {next : List Word}

theorem parse_reread (ha : a.IsSource) (h : a.extraWords ≤ next.length) :
    Argument.parse .source (a.text (next.headD 0)) =
      .ok { form := (a.reread next).1, next := (a.reread next).1.next? ((a.reread next).2.headD 0) } := by
  rcases reread_cases h with ⟨v, rest, l, rfl, rfl, hl, hr⟩ | ⟨hs, hr⟩
  · rw [hr, List.headD_cons, parse_text_short hl, next?, takesWord_of_shortLiteral? hl]
    rfl
  · rw [hr]
    exact parse_text .source ha fun _ => hs

theorem drop_reread (h : a.extraWords ≤ next.length) :
    (a.reread next).2.drop (a.reread next).1.extraWords = next.drop a.extraWords := by
  rcases reread_cases h with ⟨v, rest, l, rfl, rfl, hl, hr⟩ | ⟨-, hr⟩
  · rw [hr, extraWords, takesWord_of_shortLiteral? hl]
    rfl
  · rw [hr]

theorem length_reread {k : Nat} (h : next.length = a.extraWords + k) :
    (a.reread next).2.length = (a.reread next).1.extraWords + k := by
  rcases reread_cases (Nat.le.intro h.symm) with ⟨v, rest, l, rfl, rfl, hl, hr⟩ | ⟨-, hr⟩
  · rw [hr, extraWords, takesWord_of_shortLiteral? hl]
    simp only [List.length_cons, extraWords, takesWord, Bool.toNat_true] at h
    simp only [Bool.toNat_false]
    omega
  · rw [hr, h]

end

theorem toList_next? {a : Operand} {next : List Word} (h : next.length = a.extraWords) :
    (a.next? (next.headD 0)).toList = next.map .number := by
  unfold extraWords at h
  unfold next?
  cases ha : a.takesWord <;> rw [ha] at h <;> rcases next with _ | ⟨x, _ | ⟨y, rest⟩⟩ <;> simp_all

/-- The next words of the operands together are the next words of the instruction. -/
theorem next?_append_next? {a b : Operand} {next : List Word} (h : next.length = a.extraWords + b.extraWords) :
    (a.next? (next.headD 0)).toList ++ (b.next? ((next.drop a.extraWords).headD 0)).toList = next.map .number := by
  unfold extraWords at h ⊢
  unfold next?
  cases ha : a.takesWord <;> cases hb : b.takesWord <;> rw [ha, hb] at h <;>
    rcases next with _ | ⟨x, _ | ⟨y, _ | ⟨z, rest⟩⟩⟩ <;> simp_all

end Operand

/-! ## Instruction words -/

namespace Instruction

/-- The source operand. -/
def source : Instruction → Operand
  | basic _ _ a | special _ a => a

/-- The instruction with another source operand. -/
def withSource : Instruction → Operand → Instruction
  | basic op b _, a => basic op b a
  | special op _, a => special op a

theorem withSource_source (i : Instruction) : i.withSource i.source = i := by cases i <;> rfl

/-- The words that a printed instruction is assembled to. -/
def reread (i : Instruction) (next : List Word) : List Word :=
  (i.withSource (i.source.reread next).1).encode :: (i.source.reread next).2

end Instruction

/-- The words that the text of an instruction word with its next words is assembled to. -/
def wordsReread (w : Word) (next : List Word) : List Word :=
  match Instruction.decode w with
  | .ok i => i.reread next
  | .error _ => w :: next

/-- A statement that places the words `ws` and no reference. -/
def Statement.Places (st : Statement) (ws : List Word) : Prop :=
  ∀ (l : Layout) (line : Nat), l.place line st = .ok (l.append (ws.map .word))

theorem parse_basicText {op : BasicOp} {b a : Operand} (hb : b.IsDestination) (ha : a.IsSource) {next : List Word}
    (h : next.length = a.extraWords + b.extraWords) :
    ∃ st, Statement.parse (Instruction.text (.basic op b a) next) = .ok st ∧
      st.Places (Instruction.reread (.basic op b a) next) := by
  have le : a.extraWords ≤ next.length := Nat.le.intro h.symm
  have source := Operand.parse_reread ha le
  have dest : Argument.parse .destination (b.text ((next.drop a.extraWords).headD 0)) = _ :=
    Operand.parse_text .destination hb (by simp)
  have likeB := Operand.operandLike_text .destination hb ((next.drop a.extraWords).headD 0)
  have likeA := Operand.operandLike_text .source ha (next.headD 0)
  have parsed := Statement.parseBasic_of_items op likeB likeA dest source
  refine ⟨_, (Statement.parse_basic op likeB likeA).trans parsed, ?_⟩
  intro l line
  have words := Operand.next?_append_next? (Operand.length_reread h)
  rw [Operand.drop_reread le] at words
  simp only [Layout.place, words, List.map_map]
  rfl

theorem parse_specialText {op : SpecialOp} {a : Operand} (ha : a.IsSource) {next : List Word}
    (h : next.length = a.extraWords) :
    ∃ st, Statement.parse (Instruction.text (.special op a) next) = .ok st ∧
      st.Places (Instruction.reread (.special op a) next) := by
  have source := Operand.parse_reread ha (Nat.le_of_eq h.symm)
  have like := Operand.operandLike_text .source ha (next.headD 0)
  refine ⟨_, (Statement.parse_special op like).trans (Statement.parseSpecial_of_item op like source), ?_⟩
  intro l line
  simp only [Layout.place, Operand.toList_next? (Operand.length_reread (k := 0) h), List.map_map]
  rfl

theorem trimmed_numerals (ws : List Word) : Trimmed ([',', ' '].intercalate (ws.map Word.numeral)) :=
  trimmed_intercalate _ (List.forall_mem_map.mpr fun w _ => ⟨List.cons_ne_nil _ _, trimmed_numeral w⟩)

theorem parse_dataText (ws : List Word) (hne : ws ≠ []) :
    ∃ st, Statement.parse (dataText ws) = .ok st ∧ st.Places ws := by
  refine ⟨_, (Statement.parse_data (trimmed_numerals ws)).trans (Statement.parseData_numerals hne), ?_⟩
  intro l line
  simp only [Layout.place, List.map_map]
  rfl

theorem parse_wordsText {w : Word} {next : List Word} (h : next.length + 1 = w.instructionLength) :
    ∃ st, Statement.parse (wordsText w next) = .ok st ∧ st.Places (wordsReread w next) := by
  unfold wordsText wordsReread
  cases hd : Instruction.decode w with
  | error e => exact parse_dataText (w :: next) (List.cons_ne_nil _ _)
  | ok i =>
    have size := Instruction.size_of_decode hd
    have formed := Instruction.wellFormed_of_decode hd
    cases i with
    | basic op b a =>
      simp only [Instruction.size, Instruction.extraWords] at size
      exact parse_basicText formed.1 formed.2 (by omega)
    | special op a =>
      simp only [Instruction.size, Instruction.extraWords] at size
      exact parse_specialText formed (by omega)

/-! ## Lines -/

/-- A line of a name and operands: it has no label and no comment, and is one line. -/
structure StatementLine (word rest : Text) : Prop where
  word_ne_nil : word ≠ []
  word_chars : ∀ c ∈ word, isBlank c = false ∧ c ≠ ':' ∧ c ≠ ';'
  rest_ne_nil : rest ≠ []
  rest_trimmed : Trimmed rest
  rest_chars : ∀ c ∈ rest, c ≠ ';' ∧ c ≠ '\n'

namespace StatementLine

variable {word rest : Text} (h : StatementLine word rest)
include h

theorem no_newline : '\n' ∉ word ++ ' ' :: rest := by
  intro hc
  rcases List.mem_append.mp hc with hc | hc
  · exact absurd (h.word_chars _ hc).1 (by decide)
  · rcases List.mem_cons.mp hc with hc | hc
    · exact absurd hc (by decide)
    · exact (h.rest_chars _ hc).2 rfl

theorem no_semicolon : ';' ∉ word ++ ' ' :: rest := by
  intro hc
  rcases List.mem_append.mp hc with hc | hc
  · exact (h.word_chars _ hc).2.2 rfl
  · rcases List.mem_cons.mp hc with hc | hc
    · exact absurd hc (by decide)
    · exact (h.rest_chars _ hc).1 rfl

theorem trimmed : Trimmed (word ++ ' ' :: rest) := by
  have trimmedWord : Trimmed word := trimmed_of_forall fun c hc => (h.word_chars c hc).1
  exact trimmedWord.append_append h.rest_trimmed h.word_ne_nil h.rest_ne_nil [' ']

theorem splitLine_eq : splitLine (word ++ ' ' :: rest) = ([], word ++ ' ' :: rest) :=
  splitLine_of_word (fun c hc => ⟨(h.word_chars c hc).1, (h.word_chars c hc).2.1⟩) h.word_ne_nil h.trimmed
    h.no_semicolon

theorem addLine_eq {st : Statement} (hst : Statement.parse (word ++ ' ' :: rest) = .ok st) (l : Layout) (line : Nat) :
    l.addLine line (word ++ ' ' :: rest) = l.place line st := by
  have visible : (word ++ ' ' :: rest).isEmpty = false := by cases word <;> rfl
  rw [Layout.addLine, h.splitLine_eq]
  simp only [List.foldlM_nil, visible, hst]
  rfl

end StatementLine

theorem statementLine_operands {word : Text} (hw : word ≠ [] ∧ ∀ c ∈ word, isBlank c = false ∧ c ≠ ':' ∧ c ≠ ';')
    {rest : Text} (hne : rest ≠ []) (ht : Trimmed rest) (hc : ∀ c ∈ rest, c = ',' ∨ c ∈ operandChars) :
    StatementLine word rest where
  word_ne_nil := hw.1
  word_chars := hw.2
  rest_ne_nil := hne
  rest_trimmed := ht
  rest_chars c h := by
    have plain : ∀ c ∈ ',' :: operandChars, c ≠ ';' ∧ c ≠ '\n' := by decide
    exact plain c (List.mem_cons.mpr (hc c h))

theorem statementLine_dataText (w : Word) (ws : List Word) :
    ∃ word rest, dataText (w :: ws) = word ++ ' ' :: rest ∧ StatementLine word rest := by
  refine ⟨"DAT".toList, _, rfl, statementLine_operands (by decide) ?_ (trimmed_numerals _) ?_⟩
  · cases ws <;> simp [Word.numeral]
  · refine forall_mem_intercalate (by decide) (List.forall_mem_map.mpr fun v _ c hc => ?_)
    exact .inr (mem_operandChars hc)

/-- Each printed line is a line of a name and operands. -/
theorem statementLine_wordsText (w : Word) (next : List Word) :
    ∃ word rest, wordsText w next = word ++ ' ' :: rest ∧ StatementLine word rest := by
  unfold wordsText
  cases hd : Instruction.decode w with
  | error e => exact statementLine_dataText w next
  | ok i =>
    have formed := Instruction.wellFormed_of_decode hd
    cases i with
    | basic op b a =>
      obtain ⟨bNe, bTrimmed, bChars⟩ :=
        Operand.operandLike_text .destination formed.1 ((next.drop a.extraWords).headD 0)
      obtain ⟨aNe, aTrimmed, aChars⟩ := Operand.operandLike_text .source formed.2 (next.headD 0)
      refine ⟨op.mnemonic.toList, b.text _ ++ ([',', ' '] ++ a.text _), by simp [Instruction.text],
        statementLine_operands (by cases op <;> decide) (by simp)
          (bTrimmed.append_append aTrimmed bNe aNe _) ?_⟩
      refine List.forall_mem_append.mpr ⟨fun c hc => .inr (bChars c hc), List.forall_mem_append.mpr ⟨by decide, ?_⟩⟩
      exact fun c hc => .inr (aChars c hc)
    | special op a =>
      obtain ⟨aNe, aTrimmed, aChars⟩ := Operand.operandLike_text .source formed (next.headD 0)
      exact ⟨op.mnemonic.toList, a.text _, rfl,
        statementLine_operands (by cases op <;> decide) aNe aTrimmed fun c hc => .inr (aChars c hc)⟩

theorem newline_not_mem_wordsText (w : Word) (next : List Word) : '\n' ∉ wordsText w next := by
  obtain ⟨word, rest, text, line⟩ := statementLine_wordsText w next
  exact text ▸ line.no_newline

/-- **A printed line is assembled** to the words that it was printed for, with one exception: a source that is a
next word small enough for a literal becomes one. -/
theorem addLine_wordsText {w : Word} {next : List Word} (h : next.length + 1 = w.instructionLength) (l : Layout)
    (line : Nat) : l.addLine line (wordsText w next) = .ok (l.append ((wordsReread w next).map .word)) := by
  obtain ⟨st, hst, places⟩ := parse_wordsText h
  obtain ⟨word, rest, text, isLine⟩ := statementLine_wordsText w next
  rw [text] at hst ⊢
  rw [isLine.addLine_eq hst, places]

end Dcpu16
