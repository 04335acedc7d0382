import Dcpu16.Listing
import Dcpu16.Proofs.Assembly.Accepted
import Dcpu16.Proofs.Assembly.Numerals
import Dcpu16.Proofs.Assembly.Terms

/-!
# Printed operands are read back

The text of an operand is read as the operand and its next word. One form is an exception: as a source, a next
word that is small enough is read as a literal.
-/

namespace Dcpu16

namespace Argument

/-! ## Sums that are printed -/

/-- The digits of a numeral belong to the last term. -/
theorem terms_go_numeral (negative : Bool) (term : Text) (done : List (Bool × Text)) (w : Word) :
    terms.go negative term done w.numeral = terms.go negative (w.numeral.reverse ++ term) done [] := by
  have unsigned {c : Char} (hc : c ∉ numeralChars) : c ∉ w.numeral := fun h => hc (mem_numeral h)
  have whole := terms_go_append negative term done (unsigned (by decide)) (unsigned (by decide)) []
  rwa [List.append_nil] at whole

theorem terms_numeral (w : Word) : terms w.numeral = [(false, w.numeral)] := by
  have trimmed : trim (w.numeral.reverse ++ []).reverse = w.numeral := by
    simpa using trim_of_trimmed (trimmed_numeral w)
  rw [terms, terms_go_numeral]
  unfold terms.go
  rw [trimmed]
  rfl

theorem terms_offset (r : Register) (w : Word) :
    terms (r.letter :: ' ' :: '+' :: ' ' :: w.numeral) = [(false, [r.letter]), (false, w.numeral)] := by
  have letter : r.letter ≠ '+' ∧ r.letter ≠ '-' ∧ [' ', r.letter].all isBlank = false ∧
      trim [' ', r.letter].reverse = [r.letter] := by cases r <;> decide
  have trimmed : trim (w.numeral.reverse ++ [' ']).reverse = w.numeral := by
    simpa [trim_cons_of_isBlank (by decide : isBlank ' ')] using trim_of_trimmed (trimmed_numeral w)
  rw [terms, terms_go_cons _ _ _ letter.1 letter.2.1, terms_go_cons _ _ _ (by decide) (by decide),
    terms_go_sign _ _ _ (.inl rfl) letter.2.2.1, terms_go_cons _ _ _ (by decide) (by decide), terms_go_numeral,
    letter.2.2.2]
  unfold terms.go
  rw [trimmed]
  rfl

theorem baseName_numeral (w : Word) : Base.ofName? w.numeral = none := rfl

theorem baseName_letter (r : Register) : Base.ofName? [r.letter] = some (.register r) := by cases r <;> rfl

/-- A text in brackets that starts like a sum is read as one. -/
theorem parseMemory_of_sum (pos : Position) {c : Char} {t : Text} (hc : upperChar c = [c]) (hm : c ≠ '-')
    (hs : c ≠ 'S') (ht : Trimmed (c :: t)) (sum : AddressSum) {a : Argument}
    (hsum : (terms (c :: t)).foldlM (fun s term => AddressSum.add (c :: t) s term.1 term.2) {} = .ok sum)
    (ha : sum.argument? = some a) : parseMemory pos (c :: t) = .ok a := by
  have hb : isBlank c = false := ht.1 c rfl
  have packed : upper ((c :: t).filter (!isBlank ·)) = c :: upper (t.filter (!isBlank ·)) := by
    simp [upper, hb, hc]
  have push : c :: upper (t.filter (!isBlank ·)) ≠ "--SP".toList := fun e => hm (List.cons.inj e).1
  have pop : c :: upper (t.filter (!isBlank ·)) ≠ "SP++".toList := fun e => hs (List.cons.inj e).1
  have peek : c :: upper (t.filter (!isBlank ·)) ≠ "SP".toList := fun e => hs (List.cons.inj e).1
  simp only [parseMemory, trim_of_trimmed ht, packed, push, pop, peek, false_and, if_false, hsum, bind,
    Except.bind, ha]

theorem parseMemory_numeral (pos : Position) (w : Word) :
    parseMemory pos w.numeral = .ok { form := .indirectNext, next := some (.number w) } := by
  refine parseMemory_of_sum pos rfl (by decide) (by decide) (trimmed_numeral w) { value := some (.number w) } ?_ rfl
  rw [← Word.numeral, terms_numeral]
  simp only [List.foldlM_cons, List.foldlM_nil, AddressSum.add, baseName_numeral, parse_numeral]
  rfl

theorem parseMemory_offset (pos : Position) (r : Register) (w : Word) :
    parseMemory pos (r.letter :: ' ' :: '+' :: ' ' :: w.numeral) =
      .ok { form := .indirectOffset r, next := some (.number w) } := by
  have head : upperChar r.letter = [r.letter] ∧ r.letter ≠ '-' ∧ r.letter ≠ 'S' ∧ Trimmed [r.letter] := by
    cases r <;> decide
  have trimmed : Trimmed (r.letter :: ' ' :: '+' :: ' ' :: w.numeral) :=
    Trimmed.append_append head.2.2.2 (trimmed_numeral w) (by simp) (by simp [Word.numeral]) [' ', '+', ' ']
  refine parseMemory_of_sum pos head.1 head.2.1 head.2.2.1 trimmed
    { base := some (.register r), value := some (.number w) } ?_ rfl
  rw [terms_offset]
  simp only [List.foldlM_cons, List.foldlM_nil, AddressSum.add, baseName_letter, baseName_numeral, parse_numeral]
  rfl

/-! ## Operands that are printed -/

theorem trimmed_pick (w : Word) : Trimmed ("PICK ".toList ++ w.numeral) :=
  Trimmed.append_append (t := "PICK".toList) (by decide) (trimmed_numeral w) (by decide) (List.cons_ne_nil _ _) [' ']

theorem parse_value_numeral (pos : Position) (w : Word) : parse pos w.numeral = .ok (ofValue pos (.number w)) := by
  have unbracketed : bracketed? w.numeral = none := rfl
  have unnamed : named pos w.numeral = .ok none := rfl
  have unpicked : picked? w.numeral = none := rfl
  rw [parse, trim_of_trimmed (trimmed_numeral w)]
  simp only [unbracketed, unnamed, unpicked, parse_numeral]
  rfl

theorem parse_pick_numeral (pos : Position) (w : Word) :
    parse pos ("PICK ".toList ++ w.numeral) = .ok { form := .pick, next := some (.number w) } := by
  have behind : Value.parse (' ' :: w.numeral) = .ok (.number w) := by
    rw [← parse_numeral w, Value.parse, Value.parse, trim_cons_of_isBlank (by decide)]
  have unbracketed : bracketed? ("PICK ".toList ++ w.numeral) = none := rfl
  have unnamed : named pos ("PICK ".toList ++ w.numeral) = .ok none := rfl
  have picked : picked? ("PICK ".toList ++ w.numeral) = some (' ' :: w.numeral) := rfl
  rw [parse, trim_of_trimmed (trimmed_pick w)]
  simp only [unbracketed, unnamed, picked, behind]
  rfl

end Argument

/-! ## Texts of operands -/

namespace Operand

/-- The next word of an operand as a value. -/
def next? (o : Operand) (w : Word) : Option Value := if o.takesWord then some (.number w) else none

theorem literal_cases {P : Word → Prop} (small : ∀ n < 31, P (UInt16.ofNat n)) (minusOne : P 0xffff) {v : Word}
    (hv : (literal v).IsSource) : P v := by
  rcases hv with rfl | hv
  · exact minusOne
  · have := small v.toNat (Nat.lt_succ_of_le (UInt16.le_iff_toNat_le.mp hv))
    rwa [UInt16.ofNat_toNat] at this

/-- **A printed operand is read back**, unless it is a next word that fits into the instruction word. -/
theorem parse_text (pos : Position) {o : Operand} {w : Word} (ho : pos.Allows o)
    (hw : pos = .source → o = .next → shortLiteral? w = none) :
    Argument.parse pos (o.text w) = .ok { form := o, next := o.next? w } := by
  cases o with
  | register r | indirect r => cases r <;> rfl
  | peek | sp | pc | ex => rfl
  | indirectOffset r =>
    exact (Argument.parse_bracketed pos _).trans (Argument.parseMemory_offset pos r w)
  | indirectNext => exact (Argument.parse_bracketed pos _).trans (Argument.parseMemory_numeral pos w)
  | pick => exact Argument.parse_pick_numeral pos w
  | push =>
    cases pos with
    | source => exact ho.elim
    | destination => rfl
  | pop =>
    cases pos with
    | source => rfl
    | destination => exact ho.elim
  | next =>
    refine (Argument.parse_value_numeral pos w).trans ?_
    cases pos with
    | source => simp only [Argument.ofValue, hw rfl rfl]; rfl
    | destination => rfl
  | literal v =>
    cases pos with
    | destination => exact ho.elim
    | source =>
      refine literal_cases (P := fun v => Argument.parse .source ((literal v).text w) = .ok { form := .literal v })
        (fun n hn => ?_) rfl ho
      have small : ∀ n < 31, (Argument.parse .source ((literal (UInt16.ofNat n)).text 0)).toOption =
          some { form := .literal (UInt16.ofNat n) } := by decide
      exact eq_ok_of_toOption (small n hn)

/-- A printed next word that fits into the instruction word is read as a literal. -/
theorem parse_text_short {w : Word} {l : Operand} (hw : shortLiteral? w = some l) :
    Argument.parse .source (next.text w) = .ok { form := l } := by
  refine (Argument.parse_value_numeral .source w).trans ?_
  simp only [Argument.ofValue, hw]

end Operand

/-! ## Texts of operands as items -/

/-- The characters of operands. -/
def operandChars : Text := "ABCXYZIJ[]+- PUSHOEK0123456789abcdefx".toList

/-- A text that is put together like an operand. -/
def OperandLike (t : Text) : Prop := t ≠ [] ∧ Trimmed t ∧ ∀ c ∈ t, c ∈ operandChars

instance (t : Text) : Decidable (OperandLike t) := by unfold OperandLike; infer_instance

theorem OperandLike.isItem {t : Text} (h : OperandLike t) : IsItem t where
  ne_nil := h.1
  trimmed := h.2.1
  no_comma hc := absurd (h.2.2 _ hc) (by decide)
  no_quote hc := absurd (h.2.2 _ hc) (by decide)

theorem mem_operandChars {w : Word} {c : Char} (h : c ∈ w.numeral) : c ∈ operandChars := by
  have all : ∀ c ∈ numeralChars, c ∈ operandChars := by decide
  exact all c (mem_numeral h)

theorem Operand.text_of_takesWord {o : Operand} (h : o.takesWord = false) (w : Word) : o.text w = o.text 0 := by
  cases o with
  | indirectOffset _ | pick | indirectNext | next => cases h
  | _ => rfl

theorem Operand.operandLike_text (pos : Position) {o : Operand} (ho : pos.Allows o) (w : Word) :
    OperandLike (o.text w) := by
  have numeral : ∀ c ∈ w.numeral, c ∈ operandChars := fun _ => mem_operandChars
  cases o with
  | register r | indirect r => rw [text_of_takesWord rfl]; cases r <;> decide
  | push | pop | peek | sp | pc | ex => rw [text_of_takesWord rfl]; decide
  | next => exact ⟨List.cons_ne_nil _ _, trimmed_numeral w, numeral⟩
  | pick =>
    exact ⟨List.cons_ne_nil _ _, Argument.trimmed_pick w, List.forall_mem_append.mpr ⟨by decide, numeral⟩⟩
  | indirectNext =>
    refine ⟨List.cons_ne_nil _ _, Argument.trimmed_bracketed w.numeral, ?_⟩
    exact List.forall_mem_append.mpr ⟨List.forall_mem_cons.mpr ⟨by decide, numeral⟩, by decide⟩
  | indirectOffset r =>
    have opening : ∀ c ∈ ['[', r.letter, ' ', '+', ' '], c ∈ operandChars := by cases r <;> decide
    refine ⟨List.cons_ne_nil _ _, Argument.trimmed_bracketed (r.letter :: ' ' :: '+' :: ' ' :: w.numeral), ?_⟩
    exact List.forall_mem_append.mpr ⟨List.forall_mem_append.mpr ⟨opening, numeral⟩, by decide⟩
  | literal v =>
    cases pos with
    | destination => exact ho.elim
    | source =>
      rw [text_of_takesWord rfl]
      exact literal_cases (P := fun v => OperandLike ((literal v).text 0)) (by decide) (by decide) ho

end Dcpu16
