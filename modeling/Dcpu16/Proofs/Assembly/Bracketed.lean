import Dcpu16.Proofs.Assembly.Addresses

/-!
# Bracketed operands mean what they say

A sum in brackets is an operand exactly if it has at most one register and at most one value and subtracts nothing but
numbers. The machine then resolves the operand to the memory word at what the sum comes to. SP with two minuses in
front and SP with two pluses behind are the names PUSH and POP (`bracketed_operands`).
-/

namespace Dcpu16

namespace Argument

/-! ## The stack -/

/-- **The texts in brackets that stand for a stack operand of a position**: SP with two minuses in front as a
destination, and SP with two pluses behind as a source, with blanks around signs and name. -/
inductive StackForm : Position → Text → Prop
  | push {before between gap sp behind : Text} (hb : Blank before) (hw : Blank between) (hg : Blank gap)
    (he : Blank behind) (name : upperAscii sp = "SP".toList) :
    StackForm .destination (before ++ '-' :: (between ++ '-' :: (gap ++ (sp ++ behind))))
  | pop {before sp gap between behind : Text} (hb : Blank before) (hg : Blank gap) (hw : Blank between)
    (he : Blank behind) (name : upperAscii sp = "SP".toList) :
    StackForm .source (before ++ (sp ++ (gap ++ '+' :: (between ++ '+' :: behind))))

/-- What is seen of these texts. -/
def stackText : Position → Text
  | .destination => "--SP".toList
  | .source => "SP++".toList

/-- The stack operand that is allowed at just one position. -/
def stackOperand : Position → Operand
  | .destination => .push
  | .source => .pop

theorem packed_of_stackForm {pos : Position} {t : Text} (h : StackForm pos t) : packed t = stackText pos := by
  have word {sp : Text} (name : upperAscii sp = "SP".toList) : packed sp = "SP".toList :=
    (packed_of_isWord (isWord_of_isName (isName_of_baseName (b := .sp) name))).trans name
  have minus := packed_sign true
  have plus := packed_sign false
  simp only [sign, if_true, Bool.false_eq_true, if_false] at minus plus
  cases h with
  | push hb hw hg he name =>
    simp only [packed_append, packed_of_blank hb, packed_of_blank hw, packed_of_blank hg, packed_of_blank he, word name,
      minus, List.nil_append, List.append_nil]
    rfl
  | pop hb hg hw he name =>
    simp only [packed_append, packed_of_blank hb, packed_of_blank hw, packed_of_blank hg, packed_of_blank he, word name,
      plus, List.nil_append]
    rfl

/-- A sign of these texts is left alone when they are split. -/
theorem sign_of_stackForm {pos : Position} {t : Text} (h : StackForm pos t) :
    ∃ negative c, (c = '+' ∨ c = '-') ∧ (negative, [c]) ∈ terms t := by
  have back {gap : Text} (hg : Blank gap) : gap.reverse.all isBlank := by simpa [Blank] using hg
  cases h with
  | @push before between gap sp behind hb hw hg he name =>
    refine ⟨false, '-', .inr rfl, ?_⟩
    have first : trim (between.reverse ++ '-' :: before.reverse).reverse = ['-'] := by
      have alone : trim (before ++ (['-'] ++ between)) = ['-'] :=
        (trim_append_left hb _).trans (trim_append_right hw ['-'])
      simpa using alone
    have visible : (between.reverse ++ '-' :: before.reverse).all isBlank = false := by
      simp [show isBlank '-' = false by decide]
    obtain ⟨parts, rest⟩ := terms_go_done true [] [(false, ['-'])] (gap ++ (sp ++ behind))
    rw [terms, terms_go_append _ _ _ (ne_sign_of_blank hb).1 (ne_sign_of_blank hb).2, List.append_nil,
      terms_go_own _ _ _ (back hb), terms_go_append _ _ _ (ne_sign_of_blank hw).1 (ne_sign_of_blank hw).2,
      terms_go_sign _ _ _ (.inr rfl) visible, first]
    exact rest ▸ List.mem_cons_self ..
  | @pop before sp gap between behind hb hg hw he name =>
    refine ⟨false, '+', .inl rfl, ?_⟩
    have word : IsWord sp := isWord_of_isName (isName_of_baseName (b := .sp) name)
    have visible : (gap.reverse ++ sp.reverse).all isBlank = false := by
      rw [List.all_append, List.all_reverse, List.all_reverse, all_isBlank_of_trimmed word.trimmed word.ne_nil,
        Bool.and_false]
    have last : trim ('+' :: between.reverse).reverse = ['+'] := by
      rw [List.reverse_cons, List.reverse_reverse]
      exact trim_append_left hw ['+']
    have empty : Blank [] := by simp [Blank]
    have start := terms_go_signed word hb empty false false [] (gap ++ '+' :: (between ++ '+' :: behind))
    have stop :=
      terms_go_behind he false ('+' :: between.reverse) [(false, trim (gap.reverse ++ sp.reverse).reverse)] []
    rw [List.nil_append] at stop
    simp only [signed, Bool.false_eq_true, if_false] at start
    rw [terms, start,
      terms_go_append _ _ _ (ne_sign_of_blank hg).1 (ne_sign_of_blank hg).2, terms_go_sign _ _ _ (.inl rfl) visible,
      show decide ('+' = '-') = false by decide,
      terms_go_append _ _ _ (ne_sign_of_blank hw).1 (ne_sign_of_blank hw).2, List.append_nil,
      terms_go_own _ _ _ (back hw), stop]
    unfold terms.go
    rw [last]
    exact List.mem_cons_of_mem _ (List.mem_cons_self ..)

/-- A sum with a part that is a sign alone is not read. -/
theorem toOption_foldlM_of_sign {parts : List (Bool × Text)} {negative : Bool} {c : Char} (hc : c = '+' ∨ c = '-')
    (h : (negative, [c]) ∈ parts) (inner : Text) (s : AddressSum) :
    (parts.foldlM (fun s term => AddressSum.add inner s term.1 term.2) s).toOption = none := by
  have unread : (Value.parse [c]).toOption = none := by rcases hc with rfl | rfl <;> rfl
  have unnamed : Base.ofName? [c] = none := by rcases hc with rfl | rfl <;> rfl
  induction parts generalizing s with
  | nil => cases h
  | cons part parts ih =>
    rw [List.foldlM_cons, toOption_bind]
    rcases List.mem_cons.mp h with rfl | h
    · rw [add_of_unread unnamed unread]
      rfl
    · cases (AddressSum.add inner s part.1 part.2).toOption with
      | none => rfl
      | some s' => exact ih h s'

/-- The stack operand is read at its own position only. -/
theorem parseMemory_of_stackForm {pos : Position} {t : Text} (h : StackForm pos t) (other : Position) :
    (parseMemory other t).toOption = if other = pos then some { form := stackOperand pos } else none := by
  have visible : upper ((trim t).filter (!isBlank ·)) = stackText pos :=
    (congrArg upper (filter_trim t)).trans (packed_of_stackForm h)
  obtain ⟨negative, c, hc, alone⟩ := sign_of_stackForm h
  have unread := toOption_foldlM_of_sign hc (terms_trim t ▸ alone) (trim t) {}
  simp only [parseMemory, visible]
  cases pos with
  | source =>
    cases other with
    | source => rfl
    | destination => exact (toOption_bind ..).trans (unread ▸ rfl)
  | destination =>
    cases other with
    | source => exact (toOption_bind ..).trans (unread ▸ rfl)
    | destination => rfl

end Argument

/-! ## Operands in brackets -/

namespace Position

/-- The form that the machine finds in an instruction word where the code of a form stands. -/
def readBack : Position → Operand → Operand
  | source, o => .source o.code
  | destination, o => .destination o.code

theorem readBack_of_allows {pos : Position} {o : Operand} (h : pos.Allows o) : pos.readBack o = o := by
  cases pos with
  | source => exact Operand.source_code h
  | destination => exact Operand.destination_code h

/-- The name that only one position allows. -/
def stackName : Position → Text
  | source => "POP".toList
  | destination => "PUSH".toList

/-- The place that such a name stands for, and the registers with SP moved: a destination is the word below the top of
the stack, to which SP moves, and a source is the top, which SP moves past. -/
def stackPlace (regs : Registers) : Position → Location × Registers
  | source => (.memory regs.sp, { regs with sp := regs.sp + 1 })
  | destination => (.memory (regs.sp - 1), { regs with sp := regs.sp - 1 })

end Position

namespace Argument

/-- **What it means that a sum in brackets means what it says**: it is accepted exactly if an operand can be such a sum,
and the machine resolves the operand in the instruction word, with the next word that is written behind it at PC, to
the memory word at what the sum comes to. -/
structure MeansSum (symbols : List (Text × Word)) (pos : Position) (sum : List Summand) (t : Text) : Prop where
  accepted : (parse pos ('[' :: t ++ [']'])).isOk ↔ Sensible sum
  next_isSome (a : Argument) (h : parse pos ('[' :: t ++ [']']) = .ok a) :
    a.next.isSome = (pos.readBack a.form).takesWord
  place (a : Argument) (h : parse pos ('[' :: t ++ [']']) = .ok a) (s : Core)
    (hn : ∀ v ∈ a.next, v.word? symbols = some s.fetch) :
    ∃ n, address? symbols s.regs sum = some n ∧ (s.resolve (pos.readBack a.form)).1 = .memory (.ofInt n)

/-- **What it means that a text in brackets is a stack operand**: it is the same as the name, and is rejected at the
other position. -/
structure MeansStack (pos : Position) (t : Text) : Prop where
  accepted : ∃ a, parse pos ('[' :: t ++ [']']) = .ok a ∧ parse pos pos.stackName = .ok a ∧ a.next = none ∧
    ∀ s : Core, s.resolve (pos.readBack a.form) = pos.stackPlace s.regs
  rejected (other : Position) (h : other ≠ pos) : (parse other ('[' :: t ++ [']'])).isOk = false

theorem meansSum_of_written (symbols : List (Text × Word)) (pos : Position) {sum : List Summand} {t : Text}
    (h : Written sum t) : MeansSum symbols pos sum t := by
  have read {a : Argument} (ha : parse pos ('[' :: t ++ [']']) = .ok a) :
      ∃ s, sum.foldlM AddressSum.plus {} = some s ∧ s.argument? = some a := by
    have whole := parseMemory_of_written h pos
    rw [parse_bracketed] at ha
    rw [ha] at whole
    exact Option.bind_eq_some_iff.mp whole.symm
  refine ⟨isOk_iff_sensible h pos, fun a ha => ?_, fun a ha s hn => ?_⟩
  · obtain ⟨sum, -, argument⟩ := read ha
    obtain ⟨fits, -⟩ : Fits pos a ∧ _ := AddressSum.argument?_eq_some argument
    rw [Position.readBack_of_allows fits.allowed]
    exact fits.next_isSome
  · obtain ⟨total, added, argument⟩ := read ha
    obtain ⟨fits, next, resolved⟩ : Fits pos a ∧ _ := AddressSum.argument?_eq_some argument
    obtain ⟨n, address, comes⟩ := address?_of_foldlM s.regs added (next ▸ hn)
    refine ⟨n, address, ?_⟩
    have zero : ({} : AddressSum).total s.regs s.fetch = 0 := rfl
    rw [Position.readBack_of_allows fits.allowed, resolved, comes, zero, UInt16.zero_add]

theorem meansStack_of_stackForm {pos : Position} {t : Text} (h : StackForm pos t) : MeansStack pos t := by
  have read (other : Position) := parse_bracketed other t ▸ parseMemory_of_stackForm h other
  refine ⟨⟨{ form := stackOperand pos }, ?_, ?_, rfl, fun s => ?_⟩, fun other different => ?_⟩
  · exact eq_ok_of_toOption ((read pos).trans (if_pos rfl))
  · cases pos <;> rfl
  · cases pos <;> rfl
  · rw [isOk_eq_isSome, read other, if_neg different]
    rfl

/-- **Bracketed operands mean what they say.** A sum is accepted exactly if it has at most one register and at most one
value and subtracts only numbers, and is then the memory word at what it comes to, whichever order its terms have and
however the signs are written. SP with two minuses in front is PUSH as a destination, SP with two pluses behind is POP
as a source, and neither is anything else. -/
theorem bracketed_operands (symbols : List (Text × Word)) (pos : Position) :
    (∀ {sum t}, Written sum t → MeansSum symbols pos sum t) ∧ ∀ {t}, StackForm pos t → MeansStack pos t :=
  ⟨fun h => meansSum_of_written symbols pos h, fun h => meansStack_of_stackForm h⟩

/-- A negative number in front of a register in lower case, and a push where it is a source. -/
theorem bracketed_operands_of_offset :
    let s : Core := { regs := { a := 5, pc := 0x100 }, mem := Memory.blank.write 0x100 0xfff0 }
    (∃ a, parse .destination "[ -0x10 + a ]".toList = .ok a ∧
      (s.resolve (Position.destination.readBack a.form)).1 = .memory 0xfff5) ∧
      (parse .source "[- -sp]".toList).isOk = false := by
  intro s
  have number : (Term.number 16).Spelled "0x10".toList := .number (.hexadecimal (.inl rfl) (by decide)) (by decide)
  have register : (Term.base (.register .a)).Spelled "a".toList := .base rfl
  have behind : Further [⟨false, .base (.register .a)⟩] " + a ".toList :=
    @Further.cons [] _ [' '] [' '] [] "a".toList [' '] false false (by decide) (by decide) (by decide) register
      (fun h => nomatch h) (.nil (by decide))
  have written : Written [⟨true, .number 16⟩, ⟨false, .base (.register .a)⟩] " -0x10 + a ".toList :=
    @Written.mk _ _ [' '] [] "0x10".toList " + a ".toList true (by decide) (by decide) number behind
  have push : StackForm .destination "- -sp".toList :=
    @StackForm.push [] [' '] [] "sp".toList [] (by decide) (by decide) (by decide) (by decide) rfl
  have parsed : parse .destination "[ -0x10 + a ]".toList =
      .ok { form := .indirectOffset .a, next := some (.number 0xfff0) } := rfl
  have fetched : s.fetch = 0xfff0 := (Memory.read_write ..).trans (if_pos rfl)
  obtain ⟨n, address, place⟩ :=
    ((bracketed_operands [] .destination).1 written).place _ parsed s fun v hv => by
      cases hv
      exact congrArg some fetched.symm
  have sum : n = -11 := (Option.some.inj address).symm
  exact ⟨⟨_, parsed, place.trans (sum ▸ rfl)⟩,
    ((bracketed_operands [] .destination).2 push).rejected .source (by decide)⟩

end Argument

end Dcpu16
