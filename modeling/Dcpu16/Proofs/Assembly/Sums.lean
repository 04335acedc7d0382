import Dcpu16.Proofs.Assembly.Terms
import Dcpu16.Proofs.Assembly.UnsignedNumerals
import Dcpu16.Proofs.Text.UpperCase

/-!
# Sums as they are written

A grammar of the sums that may stand in brackets: terms with signs between them, with blanks around terms and signs
(`Written`). The splitting at signs finds the terms again, each with its sign and whatever minus it has of its own
(`terms_of_written`).
-/

namespace Dcpu16

/-! ## Names -/

/-- A name is no number. -/
theorem magnitude?_of_isName {t : Text} (h : isName t) : Numeral.magnitude? t = none := by
  have first {c : Char} (hc : isNameStart c) : c.isDigit = false :=
    forall_ascii (p := fun c => isNameStart c → c.isDigit = false) (by decide +kernel) (toNat_lt_of_isNameStart hc) hc
  unfold Numeral.magnitude?
  split
  · cases h
  · cases h
  · cases h
  · cases h
  · next c cs =>
    simp only [isName, Bool.and_eq_true] at h
    rw [first h.1]
    rfl
  · cases h

theorem parse_of_isName {t : Text} (h : isName t) : Value.parse t = .ok (.label t) := by
  have word := isWord_of_isName h
  have unsigned : t.head? ≠ some '-' := fun minus => word.unsigned.2 (List.mem_of_mem_head? minus)
  simp only [Value.parse, trim_of_trimmed word.trimmed, number?_of_head unsigned, magnitude?_of_isName h, h, if_true]

/-- A name with a minus in front is no value. -/
theorem parse_minus_of_isName {t gap : Text} (h : isName t) (hg : Blank gap) :
    (Value.parse ('-' :: (gap ++ t))).toOption = none := by
  have word := isWord_of_isName h
  have name : isName ('-' :: (gap ++ t)) = false := rfl
  simp only [Value.parse, trim_of_trimmed (word.trimmed_minus gap), Numeral.number?, word.trimLeft_append hg,
    magnitude?_of_isName h, name]
  rfl

namespace Argument

/-! ## Terms -/

/-- The name of a register in a sum, in upper case. -/
def Base.name : Base → Text
  | register r => [r.letter]
  | sp => "SP".toList

/-- A term of a sum. -/
inductive Term
  | base (b : Base)
  | label (name : Text)
  | number (n : Nat)
  deriving DecidableEq, Repr

/-- The register of a term, if it is one. -/
def Term.base? : Term → Option Base
  | base b => some b
  | label _ | number _ => none

/-- Whether a term is a number. -/
def Term.IsNumber (term : Term) : Prop := ∃ n, term = .number n

/-- **The words for a term.** Registers have their names in either case, labels have names that are not those of
registers, and numbers are unsigned numerals of at most 0x8000. -/
inductive Term.Spelled : Term → Text → Prop
  | base {b : Base} {w : Text} (h : upperAscii w = b.name) : (base b).Spelled w
  | label {w : Text} (h : isName w) (own : ∀ b : Base, upperAscii w ≠ b.name) : (label w).Spelled w
  | number {n : Nat} {w : Text} (h : Numeral.Denotes w n) (small : n ≤ 0x8000) : (number n).Spelled w

theorem isName_of_baseName {b : Base} {w : Text} (h : upperAscii w = b.name) : isName w := by
  rw [← isName_upperAscii, h]
  rcases b with r | _
  · cases r <;> rfl
  · rfl

theorem Term.Spelled.isWord {term : Term} {w : Text} (h : term.Spelled w) : IsWord w := by
  cases h with
  | base h => exact isWord_of_isName (isName_of_baseName h)
  | label h own => exact isWord_of_isName h
  | number h small => exact h.isWord

theorem registerName_eq_some {w : Text} {r : Register} : Register.ofName? w = some r ↔ upperAscii w = [r.letter] := by
  unfold Register.ofName?
  split
  · next c =>
    constructor
    · intro found
      have letter : r.letter = c.toUpper := by simpa using List.find?_some found
      rw [letter]
      rfl
    · intro letter
      have upper : c.toUpper = r.letter := (List.cons.inj letter).1
      rw [upper]
      cases r <;> rfl
  · next several =>
    constructor
    · rintro ⟨⟩
    · intro letter
      obtain ⟨c, hc, -⟩ := List.map_eq_singleton_iff.mp letter
      exact absurd hc (several c)

/-- A word is found among the names of registers exactly if it is one. -/
theorem baseName_eq_some {w : Text} (h : IsWord w) {b : Base} : Base.ofName? w = some b ↔ upperAscii w = b.name := by
  unfold Base.ofName?
  rw [h.upper_eq]
  by_cases sp : upperAscii w = "SP".toList
  · rw [if_pos sp, sp]
    cases b <;> simp [Base.name]
  · rw [if_neg sp]
    cases b with
    | register r => simpa [Base.name] using registerName_eq_some
    | sp => simpa [Base.name] using sp

/-- A text with a minus in front is not the name of a register. -/
theorem baseName_minus (t : Text) : Base.ofName? ('-' :: t) = none := by
  cases t <;> rfl

namespace Term.Spelled
variable {term : Term} {w : Text}

theorem baseName (h : term.Spelled w) : Base.ofName? w = term.base? := by
  cases h with
  | base h => exact (baseName_eq_some (isWord_of_isName (isName_of_baseName h))).mpr h
  | label h own =>
    exact Option.eq_none_iff_forall_ne_some.mpr fun b hb => own b ((baseName_eq_some (isWord_of_isName h)).mp hb)
  | number h small =>
    refine Option.eq_none_iff_forall_ne_some.mpr fun b hb => ?_
    have name : isName w := isName_of_baseName ((baseName_eq_some h.isWord).mp hb)
    have number := Numeral.magnitude?_of_denotes h (by omega)
    rw [magnitude?_of_isName name] at number
    cases number

end Term.Spelled

/-! ## Signs of terms -/

/-- A term that is added to a sum, or subtracted. -/
structure Summand where
  negative : Bool
  term : Term
  deriving DecidableEq, Repr

/-- Adds a summand to what has been read of a sum. There is room for one register and one value, and only numbers
can be subtracted. -/
def AddressSum.plus (s : AddressSum) : Summand → Option AddressSum
  | ⟨negative, .base b⟩ => if negative || s.base.isSome then none else some { s with base := some b }
  | ⟨negative, .label name⟩ =>
    if negative || s.value.isSome then none else some { s with value := some (.label name) }
  | ⟨negative, .number n⟩ =>
    if s.value.isSome then none else some { s with value := some (.number (.ofInt (if negative then -n else n))) }

/-- A part of a text that is split at signs is added as a summand is. -/
def Reads (part : Bool × Text) (summand : Summand) : Prop :=
  ∀ inner s, (AddressSum.add inner s part.1 part.2).toOption = AddressSum.plus s summand

/-- A word, maybe with a minus in front and blanks after it. -/
def signed (minus : Bool) (gap word : Text) : Text := if minus then '-' :: (gap ++ word) else word

theorem reads_word {term : Term} {w : Text} (h : term.Spelled w) (negative : Bool) :
    Reads (negative, w) ⟨negative, term⟩ := by
  intro inner s
  have found := h.baseName
  unfold AddressSum.add
  cases h with
  | base h =>
    simp only [found, Term.base?, AddressSum.plus]
    split <;> rfl
  | label h own =>
    simp only [found, Term.base?, AddressSum.plus, parse_of_isName h]
    cases negative <;> cases s.value <;> rfl
  | number h small =>
    simp only [found, Term.base?, AddressSum.plus, Numeral.parse_of_denotes h small]
    cases negative <;> cases s.value <;> simp [Except.toOption, ofInt_neg]

/-- A text that is neither the name of a register nor a value is not added. -/
theorem add_of_unread {part : Text} (unnamed : Base.ofName? part = none) (unread : (Value.parse part).toOption = none)
    (inner : Text) (s : AddressSum) (negative : Bool) : (AddressSum.add inner s negative part).toOption = none := by
  simp only [AddressSum.add, unnamed]
  cases parsed : Value.parse part with
  | error e => cases s.value <;> rfl
  | ok v =>
    rw [parsed] at unread
    cases unread

/-- A name with a minus in front is not added, and neither is a summand that cannot be subtracted. -/
theorem reads_minus_name {term : Term} {w gap : Text} (h : isName w) (hg : Blank gap)
    (refused : ∀ s, AddressSum.plus s ⟨true, term⟩ = none) : Reads (false, '-' :: (gap ++ w)) ⟨true, term⟩ :=
  fun inner s => (add_of_unread (baseName_minus _) (parse_minus_of_isName h hg) inner s false).trans (refused s).symm

/-- A minus of its own makes a term negative, or a negative number positive. -/
theorem reads_minus {term : Term} {w gap : Text} (h : term.Spelled w) (hg : Blank gap) {negative : Bool}
    (allowed : negative = false ∨ term.IsNumber) : Reads (negative, '-' :: (gap ++ w)) ⟨!negative, term⟩ := by
  cases h with
  | base h =>
    have added : negative = false := allowed.resolve_right (by simp [Term.IsNumber])
    exact added ▸ reads_minus_name (isName_of_baseName h) hg fun s => rfl
  | label h own =>
    have added : negative = false := allowed.resolve_right (by simp [Term.IsNumber])
    exact added ▸ reads_minus_name h hg fun s => rfl
  | number h small =>
    intro inner s
    simp only [AddressSum.add, baseName_minus, AddressSum.plus, Numeral.parse_minus_of_denotes h small hg]
    cases negative <;> cases s.value <;> simp [Except.toOption, ofInt_neg]

/-- A term with a minus of its own is subtracted where it is added. Only numbers have one where they are subtracted. -/
theorem reads_signed {term : Term} {w gap : Text} (h : term.Spelled w) (hg : Blank gap) {own negative : Bool}
    (allowed : own → negative = false ∨ term.IsNumber) :
    Reads (negative, signed own gap w) ⟨negative != own, term⟩ := by
  cases own with
  | false =>
    rw [Bool.bne_false]
    exact reads_word h negative
  | true =>
    rw [Bool.bne_true]
    exact reads_minus h hg (allowed rfl)

/-! ## The grammar of sums -/

/-- The sign between terms. -/
def sign (negative : Bool) : Char := if negative then '-' else '+'

/-- **What may stand behind a term of a sum**: more terms, each behind a sign, with blanks around signs and terms. A
number may have a minus of its own. -/
inductive Further : List Summand → Text → Prop
  | nil {gap : Text} (h : Blank gap) : Further [] gap
  | cons {sum : List Summand} {term : Term} {before between gap word rest : Text} {subtracted own : Bool}
    (hb : Blank before) (hw : Blank between) (hg : Blank gap) (spelled : term.Spelled word)
    (number : own → term.IsNumber) (further : Further sum rest) :
    Further (⟨subtracted != own, term⟩ :: sum)
      (before ++ sign subtracted :: (between ++ (signed own gap word ++ rest)))

/-- **The texts of a sum**: a term that may have a minus in front, and what may stand behind it. -/
inductive Written : List Summand → Text → Prop
  | mk {sum : List Summand} {term : Term} {before gap word rest : Text} {minus : Bool}
    (hb : Blank before) (hg : Blank gap) (spelled : term.Spelled word) (further : Further sum rest) :
    Written (⟨minus, term⟩ :: sum) (before ++ (signed minus gap word ++ rest))

/-! ## Splitting -/

theorem trimmed_signed {w : Text} (h : IsWord w) (own : Bool) (gap : Text) :
    Trimmed (signed own gap w) ∧ signed own gap w ≠ [] := by
  cases own with
  | false => exact ⟨h.trimmed, h.ne_nil⟩
  | true => exact ⟨h.trimmed_minus gap, List.cons_ne_nil _ _⟩

/-- A word belongs to a term that starts with it, and so does a minus in front of it. -/
theorem terms_go_signed {w before gap : Text} (h : IsWord w) (hb : Blank before) (hg : Blank gap) (own negative : Bool)
    (done : List (Bool × Text)) (rest : Text) :
    terms.go negative [] done (before ++ (signed own gap w ++ rest)) =
      terms.go negative (signed own gap w).reverse done rest := by
  have unsigned := ne_sign_of_blank hb
  have blank : Blank before.reverse := fun c hc => hb c (List.mem_reverse.mp hc)
  have front := terms_go_append negative [] done unsigned.1 unsigned.2 (signed own gap w ++ rest)
  rw [front, List.append_nil]
  refine (terms_go_before blank negative [] done _).trans ?_
  cases own with
  | false =>
    have whole := terms_go_append negative [] done h.unsigned.1 h.unsigned.2 rest
    rwa [List.append_nil] at whole
  | true =>
    have plus : '+' ∉ gap ++ w := by simp [(ne_sign_of_blank hg).1, h.unsigned.1]
    have minus : '-' ∉ gap ++ w := by simp [(ne_sign_of_blank hg).2, h.unsigned.2]
    have behind := terms_go_append negative ['-'] done plus minus rest
    rw [← List.reverse_cons] at behind
    exact (terms_go_own negative [] done rfl _).trans behind

/-- A sign behind a term starts the next one. -/
theorem terms_go_joint {part w before between gap : Text} (hp : Trimmed part ∧ part ≠ []) (h : IsWord w)
    (hb : Blank before) (hw : Blank between) (hg : Blank gap) (negative subtracted own : Bool)
    (done : List (Bool × Text)) (rest : Text) :
    terms.go negative part.reverse done (before ++ sign subtracted :: (between ++ (signed own gap w ++ rest))) =
      terms.go subtracted (signed own gap w).reverse ((negative, part) :: done) rest := by
  have unsigned := ne_sign_of_blank hb
  have joint : sign subtracted = '+' ∨ sign subtracted = '-' := by cases subtracted <;> decide
  have side : decide (sign subtracted = '-') = subtracted := by cases subtracted <;> decide
  have visible : (before.reverse ++ part.reverse).all isBlank = false := by
    rw [List.all_append, List.all_reverse, List.all_reverse, all_isBlank_of_trimmed hp.1 hp.2, Bool.and_false]
  have trimmed : trim (before.reverse ++ part.reverse).reverse = part := by
    rw [List.reverse_append, List.reverse_reverse, List.reverse_reverse, trim_append_right hb, trim_of_trimmed hp.1]
  rw [terms_go_append _ _ _ unsigned.1 unsigned.2, terms_go_sign _ _ _ joint visible, side, trimmed]
  exact terms_go_signed h hw hg own subtracted _ rest

/-- The terms behind a term are found one after the other. -/
theorem terms_go_further {sum : List Summand} {rest : Text} (h : Further sum rest) {part : Text}
    (hp : Trimmed part ∧ part ≠ []) (negative : Bool) {done : List (Bool × Text)} (hd : done ≠ []) :
    ∃ parts, List.Forall₂ Reads parts sum ∧
      terms.go negative part.reverse done rest = done.reverse ++ (negative, part) :: parts := by
  induction h generalizing part negative done with
  | nil blank =>
    refine ⟨[], .nil, ?_⟩
    have last := terms_go_behind blank negative part.reverse done []
    rw [List.nil_append] at last
    rw [last]
    unfold terms.go
    rw [List.reverse_reverse, trim_of_trimmed hp.1]
    cases done with
    | nil => exact absurd rfl hd
    | cons d ds => simp
  | @cons sum term before between gap word rest subtracted own hb hw hg spelled number further ih =>
    have word := spelled.isWord
    obtain ⟨parts, reads, found⟩ := ih (trimmed_signed word own gap) subtracted (List.cons_ne_nil (negative, part) done)
    refine ⟨(subtracted, signed own gap _) :: parts, .cons (reads_signed spelled hg fun o => .inr (number o)) reads, ?_⟩
    rw [terms_go_joint hp word hb hw hg, found]
    simp

/-- **A sum is split into its terms.** -/
theorem terms_of_written {sum : List Summand} {t : Text} (h : Written sum t) : List.Forall₂ Reads (terms t) sum := by
  cases h with
  | @mk sum term before gap word rest minus hb hg spelled further =>
    have isWord := spelled.isWord
    have whole := trimmed_signed isWord minus gap
    rw [terms, terms_go_signed isWord hb hg]
    cases further with
    | nil blank =>
      have last := terms_go_behind blank false (signed minus gap word).reverse [] []
      rw [List.nil_append] at last
      rw [last]
      unfold terms.go
      rw [List.reverse_reverse, trim_of_trimmed whole.1]
      cases minus with
      | false =>
        simp only [signed, Bool.false_eq_true, if_false]
        split
        · exact absurd (List.mem_cons_self ..) isWord.unsigned.2
        · exact .cons (reads_word spelled false) .nil
      | true =>
        have behind : trim (gap ++ word) = word := (trim_append_left hg word).trans (trim_of_trimmed isWord.trimmed)
        simp only [signed, if_true, behind]
        exact .cons (reads_word spelled true) .nil
    | @cons sum₁ term₁ before₁ between gap₁ word₁ rest subtracted own hb₁ hw hg₁ spelled₁ number further =>
      rw [terms_go_joint whole spelled₁.isWord hb₁ hw hg₁]
      obtain ⟨parts, reads, found⟩ := terms_go_further further (trimmed_signed spelled₁.isWord own gap₁) subtracted
        (List.cons_ne_nil (false, signed minus gap word) [])
      rw [found]
      have first : Reads (false, signed minus gap word) ⟨false != minus, term⟩ :=
        reads_signed spelled hg fun _ => .inl rfl
      rw [Bool.false_bne] at first
      exact .cons first (.cons (reads_signed spelled₁ hg₁ fun o => .inr (number o)) reads)

end Argument

end Dcpu16
