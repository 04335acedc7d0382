import Dcpu16.Assembly.Statement
import Dcpu16.Proofs.Assembly.Meaning
import Dcpu16.Proofs.Except
import Dcpu16.Proofs.Instruction.Inverse

/-!
# Accepted arguments and statements

An argument that is accepted has a form that its position allows, and a next word exactly if the form takes one. The
machine resolves it to the place that its text denotes (`readsAs_of_parse`). A statement that starts with a mnemonic
is an instruction with its items as arguments.
-/

namespace Dcpu16

/-- The forms that may stand at a position. -/
def Position.Allows : Position → Operand → Prop
  | .source => Operand.IsSource
  | .destination => Operand.IsDestination

theorem Position.allows_of_both {pos : Position} {o : Operand} (hd : o.IsDestination) (hs : o.IsSource) :
    pos.Allows o := by
  cases pos with
  | source => exact hs
  | destination => exact hd

/-- A value is a number that is found, or a name where none is. -/
theorem Value.parse_eq_ok {t : Text} {v : Value} (h : Value.parse t = .ok v) :
    (∃ n, Numeral.number? (trim t) = some (some n) ∧ v = .number (.ofInt n)) ∨
      Numeral.number? (trim t) = some none ∧ isName (trim t) ∧ v = .label (trim t) := by
  simp only [Value.parse] at h
  split at h
  · cases h
  · next n hn =>
    split at h
    · exact .inl ⟨n, hn, (Except.ok.inj h).symm⟩
    · cases h
  · next hn =>
    split at h
    · next name => exact .inr ⟨hn, name, (Except.ok.inj h).symm⟩
    · cases h

namespace Argument

/-! ## How an argument is accepted -/

theorem parseMemory_eq_ok {pos : Position} {inner : Text} {a : Argument} (h : parseMemory pos inner = .ok a) :
    let packed := upper ((trim inner).filter (!isBlank ·))
    (packed = "--SP".toList ∧ pos = .destination) ∧ a = { form := .push } ∨
      ¬ (packed = "--SP".toList ∧ pos = .destination) ∧
        ((packed = "SP++".toList ∧ pos = .source) ∧ a = { form := .pop } ∨
          ¬ (packed = "SP++".toList ∧ pos = .source) ∧
            (packed = "SP".toList ∧ a = { form := .peek } ∨
              packed ≠ "SP".toList ∧
                ∃ sum, (terms (trim inner)).foldlM (fun s term => AddressSum.add (trim inner) s term.1 term.2) {} =
                  .ok sum ∧ sum.argument? = some a)) := by
  simp only [parseMemory] at h
  split at h
  · next hp => exact .inl ⟨hp, (Except.ok.inj h).symm⟩
  · next hp =>
    refine .inr ⟨hp, ?_⟩
    split at h
    · next hq => exact .inl ⟨hq, (Except.ok.inj h).symm⟩
    · next hq =>
      refine .inr ⟨hq, ?_⟩
      split at h
      · next hr => exact .inl ⟨hr, (Except.ok.inj h).symm⟩
      · next hr =>
        obtain ⟨sum, hsum, h⟩ := bind_eq_ok.mp h
        split at h
        · next ha => exact .inr ⟨hr, sum, hsum, ha.trans (congrArg some (Except.ok.inj h))⟩
        · cases h

theorem parse_eq_ok {pos : Position} {t : Text} {a : Argument} (h : parse pos t = .ok a) :
    (∃ inner, bracketed? (trim t) = some inner ∧ parseMemory pos inner = .ok a) ∨
      bracketed? (trim t) = none ∧
        (named pos (trim t) = .ok (some a) ∨
          named pos (trim t) = .ok none ∧
            ((∃ rest v, picked? (trim t) = some rest ∧ Value.parse rest = .ok v ∧
                a = { form := .pick, next := some v }) ∨
              picked? (trim t) = none ∧ ∃ v, Value.parse (trim t) = .ok v ∧ a = ofValue pos v)) := by
  simp only [parse] at h
  split at h
  · next inner hb => exact .inl ⟨inner, hb, h⟩
  · next hb =>
    refine .inr ⟨hb, ?_⟩
    obtain ⟨found, hn, h⟩ := bind_eq_ok.mp h
    cases found with
    | some b => exact .inl (hn.trans (congrArg (Except.ok <| some ·) (Except.ok.inj h)))
    | none =>
      refine .inr ⟨hn, ?_⟩
      dsimp only at h
      split at h
      · next rest hp =>
        obtain ⟨v, hv, h⟩ := bind_eq_ok.mp h
        exact .inl ⟨rest, v, hp, hv, (Except.ok.inj h).symm⟩
      · next hp =>
        obtain ⟨v, hv, h⟩ := bind_eq_ok.mp h
        exact .inr ⟨hp, v, hv, (Except.ok.inj h).symm⟩

/-! ## Values and sums -/

section
variable {symbols : List (Text × Word)}

theorem word?_of_parse {t : Text} {v : Value} (h : Value.parse t = .ok v) :
    Meaning.word? symbols t = v.word? symbols := by
  unfold Meaning.word?
  rcases Value.parse_eq_ok h with ⟨n, hn, rfl⟩ | ⟨hn, -, rfl⟩ <;> rw [hn] <;> rfl

namespace AddressSum

/-- The word that a sum comes to so far, if its value is the word `w`. -/
def total (regs : Registers) (w : Word) (s : AddressSum) : Word :=
  ((s.base.map (Base.word regs)).getD 0) + if s.value.isSome then w else 0

/-- A term is a register, a number or a label, each of which a sum may have once. -/
theorem add_eq_ok {inner term : Text} {s s' : AddressSum} {negative : Bool}
    (h : AddressSum.add inner s negative term = .ok s') :
    (∃ b, Base.ofName? term = some b ∧ negative = false ∧ s.base = none ∧ s' = { s with base := some b }) ∨
      Base.ofName? term = none ∧ s.value = none ∧
        ((∃ n, Value.parse term = .ok (.number n) ∧
            s' = { s with value := some (.number (if negative then -n else n)) }) ∨
          ∃ name, Value.parse term = .ok (.label name) ∧ negative = false ∧
            s' = { s with value := some (.label name) }) := by
  simp only [AddressSum.add] at h
  split at h
  · next b hb =>
    split at h
    · cases h
    · next free =>
      simp only [Bool.or_eq_true, not_or, Bool.not_eq_true, Option.isSome_eq_false_iff, Option.isNone_iff_eq_none]
        at free
      exact .inl ⟨b, hb, free.1, free.2, (Except.ok.inj h).symm⟩
  · next hb =>
    split at h
    · cases h
    · next free =>
      rw [Bool.not_eq_true, Option.isSome_eq_false_iff, Option.isNone_iff_eq_none] at free
      refine .inr ⟨hb, free, ?_⟩
      split at h
      · cases h
      · next n hn => exact .inl ⟨n, hn, (Except.ok.inj h).symm⟩
      · next name hn =>
        split at h
        · cases h
        · next sign => exact .inr ⟨name, hn, Bool.not_eq_true _ ▸ sign, (Except.ok.inj h).symm⟩

theorem value_of_add {inner term : Text} {s s' : AddressSum} {negative : Bool} {v : Value}
    (h : AddressSum.add inner s negative term = .ok s') (hv : s.value = some v) : s'.value = some v := by
  rcases add_eq_ok h with ⟨b, -, -, -, rfl⟩ | ⟨-, none, -⟩
  · exact hv
  · cases hv.symm.trans none

theorem value_of_foldlM {inner : Text} {ts : List (Bool × Text)} {s s' : AddressSum} {v : Value}
    (h : ts.foldlM (fun s term => AddressSum.add inner s term.1 term.2) s = .ok s') (hv : s.value = some v) :
    s'.value = some v := by
  induction ts generalizing s with
  | nil => exact Except.ok.inj h ▸ hv
  | cons t ts ih =>
    rw [List.foldlM_cons] at h
    obtain ⟨s₁, first, rest⟩ := bind_eq_ok.mp h
    exact ih rest (value_of_add first hv)

variable (regs : Registers) {w : Word}

/-- A term that is added changes what the sum comes to by the word that the term denotes. -/
theorem term?_of_add {inner term : Text} {s s' : AddressSum} {negative : Bool}
    (h : AddressSum.add inner s negative term = .ok s') (hw : ∀ v ∈ s'.value, v.word? symbols = some w) :
    ∃ x, Meaning.term? symbols regs term = some x ∧
      (if negative then s.total regs w - x else s.total regs w + x) = s'.total regs w := by
  unfold Meaning.term?
  rcases add_eq_ok h with ⟨b, hb, rfl, free, rfl⟩ | ⟨hb, free, ⟨n, hn, rfl⟩ | ⟨name, hn, rfl, rfl⟩⟩
  · refine ⟨b.word regs, by rw [hb], ?_⟩
    simp only [total, free, Option.map_none, Option.map_some, Option.getD_none, Option.getD_some,
      Bool.false_eq_true, if_false, UInt16.zero_add]
    exact UInt16.add_comm _ _
  · have word : (if negative then -n else n) = w := by simpa [Value.word?] using hw _ rfl
    refine ⟨n, by rw [hb, word?_of_parse hn]; rfl, ?_⟩
    simp only [total, free, ← word, Option.isSome_none, Option.isSome_some, Bool.false_eq_true, if_false, if_true,
      UInt16.add_zero]
    cases negative
    · rfl
    · exact UInt16.sub_eq_add_neg _ _
  · refine ⟨w, by rw [hb, word?_of_parse hn, hw _ rfl], ?_⟩
    simp only [total, free, Option.isSome_none, Option.isSome_some, Bool.false_eq_true, if_false, if_true,
      UInt16.add_zero]

/-- The terms of a sum that is accepted denote what the sum comes to. -/
theorem sum?_of_foldlM {inner : Text} {ts : List (Bool × Text)} {s s' : AddressSum}
    (h : ts.foldlM (fun s term => AddressSum.add inner s term.1 term.2) s = .ok s')
    (hw : ∀ v ∈ s'.value, v.word? symbols = some w) :
    Meaning.sum? symbols regs (s.total regs w) ts = some (s'.total regs w) := by
  induction ts generalizing s with
  | nil => exact Except.ok.inj h ▸ rfl
  | cons t ts ih =>
    rw [List.foldlM_cons] at h
    obtain ⟨s₁, first, rest⟩ := bind_eq_ok.mp h
    -- a value that the sum has after this term is the one that it ends with
    obtain ⟨x, hx, step⟩ := term?_of_add regs first fun v hv => hw v (value_of_foldlM rest hv)
    rw [Meaning.sum?, hx, Option.bind_some, step]
    exact ih rest

end AddressSum

end

/-! ## Arguments -/

/-- An argument as it may stand at a position: with a form that is allowed there, and with a next word if and only if
the form takes one. -/
structure Fits (pos : Position) (a : Argument) : Prop where
  allowed : pos.Allows a.form
  next_isSome : a.next.isSome = a.form.takesWord

/-- **What it means that an argument is read rightly**: it fits, and the machine resolves it to the place that its
text denotes, with its next word at PC. -/
structure ReadsAs (symbols : List (Text × Word)) (pos : Position) (place? : Registers → Option Location)
    (a : Argument) : Prop extends Fits pos a where
  resolved (s : Core) (hn : ∀ v ∈ a.next, v.word? symbols = some s.fetch) : place? s.regs = some (s.resolve a.form).1

section
variable {symbols : List (Text × Word)} {pos : Position}

/-- The argument of a sum has the sum's value as its next word, and resolves to memory at what the sum comes to. -/
theorem AddressSum.argument?_eq_some {sum : AddressSum} {a : Argument} (h : sum.argument? = some a) :
    Fits pos a ∧ a.next = sum.value ∧ ∀ s : Core, (s.resolve a.form).1 = .memory (sum.total s.regs s.fetch) := by
  rcases sum with ⟨_ | _ | _, _ | v⟩ <;> cases h
  all_goals
    refine ⟨⟨Position.allows_of_both trivial trivial, rfl⟩, rfl, fun s => ?_⟩
    simp [Core.resolve, total, Base.word]

theorem readsAs_of_sum {inner : Text} {sum : AddressSum} {a : Argument}
    (h : (terms inner).foldlM (fun s term => AddressSum.add inner s term.1 term.2) {} = .ok sum)
    (ha : sum.argument? = some a) :
    ReadsAs symbols pos (fun regs => (Meaning.sum? symbols regs 0 (terms inner)).map .memory) a := by
  obtain ⟨fits, next, resolved⟩ := AddressSum.argument?_eq_some ha
  refine ⟨fits, ?_⟩
  intro s hn
  have denoted : Meaning.sum? symbols s.regs 0 (terms inner) = some (sum.total s.regs s.fetch) :=
    AddressSum.sum?_of_foldlM s.regs h (next ▸ hn)
  rw [denoted, Option.map_some, resolved]

theorem readsAs_of_parseMemory {inner : Text} {a : Argument} (h : parseMemory pos inner = .ok a) :
    ReadsAs symbols pos (Meaning.memory? symbols pos · inner) a := by
  unfold Meaning.memory?
  rcases parseMemory_eq_ok h with ⟨push, rfl⟩ | ⟨push, ⟨pop, rfl⟩ | ⟨pop, ⟨peek, rfl⟩ | ⟨peek, sum, hsum, ha⟩⟩⟩
  · refine ⟨⟨push.2 ▸ trivial, rfl⟩, fun s _ => ?_⟩
    simp only [if_pos push]
    rfl
  · refine ⟨⟨pop.2 ▸ trivial, rfl⟩, fun s _ => ?_⟩
    simp only [if_neg push, if_pos pop]
    rfl
  · refine ⟨⟨Position.allows_of_both trivial trivial, rfl⟩, fun s _ => ?_⟩
    simp only [if_neg push, if_neg pop, if_pos peek]
    rfl
  · simp only [if_neg push, if_neg pop, if_neg peek]
    exact readsAs_of_sum hsum ha

/-- A name that is found fits and has no next word; whether one is found or not, the text denotes just its place. -/
theorem named_eq_ok {t : Text} {found : Option Argument} (h : named pos t = .ok found) :
    (∀ a ∈ found, Fits pos a ∧ a.next = none) ∧
      ∀ s : Core, Meaning.name? pos s.regs t = found.map fun a => (s.resolve a.form).1 := by
  have both {o : Operand} (hd : o.IsDestination) (hs : o.IsSource) (ht : o.takesWord = false) :
      Fits pos { form := o } ∧ ({ form := o } : Argument).next = none :=
    ⟨⟨Position.allows_of_both hd hs, ht.symm⟩, rfl⟩
  have one {a : Argument} (ha : Fits pos a ∧ a.next = none) : ∀ b ∈ some a, Fits pos b ∧ b.next = none :=
    fun b hb => Option.mem_some_iff.mp hb ▸ ha
  unfold named at h
  unfold Meaning.name?
  by_cases push : upperAscii t = "PUSH".toList
  · simp only [push, if_true] at h ⊢
    cases pos with
    | source => cases h
    | destination => cases h; exact ⟨one ⟨⟨trivial, rfl⟩, rfl⟩, fun s => rfl⟩
  by_cases pop : upperAscii t = "POP".toList
  · simp only [pop, if_true] at h ⊢
    cases pos with
    | source => cases h; exact ⟨one ⟨⟨trivial, rfl⟩, rfl⟩, fun s => rfl⟩
    | destination => cases h
  simp only [push, pop, false_and, if_false] at h ⊢
  by_cases peek : upperAscii t = "PEEK".toList
  · simp only [peek, if_true] at h ⊢
    cases h
    exact ⟨one (both trivial trivial rfl), fun s => rfl⟩
  by_cases sp : upperAscii t = "SP".toList
  · simp only [sp, if_true] at h ⊢
    cases h
    exact ⟨one (both trivial trivial rfl), fun s => rfl⟩
  by_cases pc : upperAscii t = "PC".toList
  · simp only [pc, if_true] at h ⊢
    cases h
    exact ⟨one (both trivial trivial rfl), fun s => rfl⟩
  by_cases ex : upperAscii t = "EX".toList
  · simp only [ex, if_true] at h ⊢
    cases h
    exact ⟨one (both trivial trivial rfl), fun s => rfl⟩
  simp only [peek, sp, pc, ex, if_false] at h ⊢
  cases h
  cases Register.ofName? t with
  | none => exact ⟨fun a ha => absurd ha (by simp), fun s => rfl⟩
  | some r => exact ⟨one (both trivial trivial rfl), fun s => rfl⟩

/-- A value that stands alone is a next word, or a literal if it is a source and small enough. -/
theorem ofValue_cases (pos : Position) (v : Value) :
    ofValue pos v = { form := .next, next := some v } ∨
      ∃ n, pos = .source ∧ v = .number n ∧ (n = 0xffff ∨ n ≤ 30) ∧ ofValue pos v = { form := .literal n } := by
  rcases pos with _ | _ <;> rcases v with n | name <;> try exact .inl rfl
  by_cases small : n = 0xffff ∨ n ≤ 30
  · refine .inr ⟨n, rfl, rfl, small, ?_⟩
    simp only [ofValue, Operand.shortLiteral?, if_pos small]
  · refine .inl ?_
    simp only [ofValue, Operand.shortLiteral?, if_neg small]

/-- **An argument that is accepted is read as its text denotes.** -/
theorem readsAs_of_parse {t : Text} {a : Argument} (h : parse pos t = .ok a) :
    ReadsAs symbols pos (Meaning.place? symbols pos · t) a := by
  unfold Meaning.place?
  rcases parse_eq_ok h with ⟨inner, hb, hi⟩ | ⟨hb, hn | ⟨hn, ⟨rest, v, hp, hv, rfl⟩ | ⟨hp, v, hv, rfl⟩⟩⟩
  · simp only [hb]
    exact readsAs_of_parseMemory hi
  · obtain ⟨found, denoted⟩ := named_eq_ok hn
    refine ⟨(found a rfl).1, fun s _ => ?_⟩
    simp only [hb, denoted]
    rfl
  · refine ⟨⟨Position.allows_of_both trivial trivial, rfl⟩, fun s hw => ?_⟩
    simp only [hb, (named_eq_ok hn).2, hp, word?_of_parse hv, hw v rfl]
    rfl
  · have denoted (s : Core) : Meaning.place? symbols pos s.regs t = (v.word? symbols).map .literal := by
      simp only [Meaning.place?, hb, (named_eq_ok hn).2, hp, word?_of_parse hv]
      rfl
    rcases ofValue_cases pos v with next | ⟨n, rfl, rfl, small, short⟩
    · rw [next]
      refine ⟨⟨Position.allows_of_both trivial trivial, rfl⟩, fun s hw => (denoted s).trans ?_⟩
      rw [hw v rfl]
      rfl
    · rw [short]
      exact ⟨⟨small, rfl⟩, fun s _ => denoted s⟩

end

end Argument

/-! ## Statements -/

/-- An item that does not start with a quote is a value. -/
theorem parseItem_of_value {t : Text} (h : t.head? ≠ some '"') : parseItem t = (do return [← Value.parse t]) := by
  unfold parseItem
  split
  · exact absurd rfl h
  · rfl

namespace Statement

/-- The names that start statements other than instructions. -/
def directives : List Text := ["DAT".toList, ".DAT".toList, "ORG".toList, ".ORG".toList]

/-- The mnemonics of special operations are not those of basic ones. -/
theorem basicMnemonic_of_special {name : Text} {op : SpecialOp} (h : SpecialOp.ofMnemonic? name = some op) :
    BasicOp.ofMnemonic? name = none := by
  have same : op.mnemonic.toList = name.map Char.toUpper := by simpa using List.find?_some h
  unfold BasicOp.ofMnemonic?
  rw [← same]
  cases op <;> decide

theorem parse_of_not_directive {t : Text} (h : upper (breakAtBlank t).1 ∉ directives) :
    (∀ op, BasicOp.ofMnemonic? (upper (breakAtBlank t).1) = some op →
        parse t = parseBasic op (trim (breakAtBlank t).2)) ∧
      ∀ op, SpecialOp.ofMnemonic? (upper (breakAtBlank t).1) = some op →
        parse t = parseSpecial op (trim (breakAtBlank t).2) := by
  simp only [directives, List.mem_cons, List.not_mem_nil, or_false, not_or] at h
  obtain ⟨data, data', origin, origin'⟩ := h
  constructor
  · intro op hop
    simp only [parse, data, data', origin, origin', or_self, if_false, hop]
  · intro op hop
    simp only [parse, data, data', origin, origin', or_self, if_false, basicMnemonic_of_special hop, hop]

theorem parse_of_basicMnemonic {t : Text} {st : Statement} {op : BasicOp} (h : parse t = .ok st)
    (hop : BasicOp.ofMnemonic? (upper (breakAtBlank t).1) = some op) :
    ∃ bText aText b a, splitItems (trim (breakAtBlank t).2) = [bText, aText] ∧
      Argument.parse .destination bText = .ok b ∧ Argument.parse .source aText = .ok a ∧ st = .basic op b a := by
  have others : ∀ name ∈ directives, BasicOp.ofMnemonic? name = none := by decide
  have name : upper (breakAtBlank t).1 ∉ directives := fun hd => by cases (others _ hd).symm.trans hop
  rw [(parse_of_not_directive name).1 op hop] at h
  unfold parseBasic at h
  split at h
  · next bText aText items =>
    obtain ⟨b, hb, h⟩ := bind_eq_ok.mp h
    obtain ⟨a, ha, h⟩ := bind_eq_ok.mp h
    exact ⟨bText, aText, b, a, items, hb, ha, (Except.ok.inj h).symm⟩
  · cases h

theorem parse_of_specialMnemonic {t : Text} {st : Statement} {op : SpecialOp} (h : parse t = .ok st)
    (hop : SpecialOp.ofMnemonic? (upper (breakAtBlank t).1) = some op) :
    ∃ aText a, splitItems (trim (breakAtBlank t).2) = [aText] ∧ Argument.parse .source aText = .ok a ∧
      st = .special op a := by
  have others : ∀ name ∈ directives, SpecialOp.ofMnemonic? name = none := by decide
  have name : upper (breakAtBlank t).1 ∉ directives := fun hd => by cases (others _ hd).symm.trans hop
  rw [(parse_of_not_directive name).2 op hop] at h
  unfold parseSpecial at h
  split at h
  · next aText items =>
    obtain ⟨a, ha, h⟩ := bind_eq_ok.mp h
    exact ⟨aText, a, items, ha, (Except.ok.inj h).symm⟩
  · cases h

end Statement

end Dcpu16
