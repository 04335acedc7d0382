import Dcpu16.Proofs.Assembly.Sums

/-!
# Addresses that sums come to

Reading a sum in brackets is adding up its terms (`parseMemory_of_written`), and it is accepted exactly if it has at
most one register and at most one value and subtracts nothing but numbers (`isOk_iff_sensible`). Adding up the terms
keeps track of the number that the sum comes to (`address?_of_foldlM`).
-/

namespace Dcpu16

namespace Argument

/-! ## Visible characters -/

/-- The characters of a text in brackets apart from blanks, in upper case. -/
def packed (t : Text) : Text := upper (t.filter (!isBlank ·))

theorem packed_append (t u : Text) : packed (t ++ u) = packed t ++ packed u := by
  simp [packed, upper]

theorem packed_of_blank {gap : Text} (h : Blank gap) : packed gap = [] := by
  have none : gap.filter (!isBlank ·) = [] := List.filter_eq_nil_iff.mpr fun c hc => by simp [h c hc]
  rw [packed, none]
  rfl

theorem packed_of_isWord {w : Text} (h : IsWord w) : packed w = upperAscii w := by
  have all : w.filter (!isBlank ·) = w := List.filter_eq_self.mpr fun c hc => by simp [(h.visible c hc).1]
  rw [packed, all, h.upper_eq]

theorem packed_sign (negative : Bool) (t : Text) : packed (sign negative :: t) = sign negative :: packed t := by
  cases negative <;> rfl

theorem packed_signed {w gap : Text} (h : IsWord w) (hg : Blank gap) (own : Bool) :
    packed (signed own gap w) = signed own [] (upperAscii w) := by
  cases own with
  | false => exact packed_of_isWord h
  | true =>
    have behind : packed (gap ++ w) = upperAscii w := by
      rw [packed_append, packed_of_blank hg, packed_of_isWord h, List.nil_append]
    exact (packed_sign true (gap ++ w)).trans (congrArg ('-' :: ·) behind)

/-- Whether the visible characters of a text end with a word. -/
def EndsInWord (t : Text) : Prop := ∃ u w, IsWord w ∧ packed t = u ++ w

theorem endsInWord_signed {w gap rest : Text} (h : IsWord w) (hg : Blank gap) (own : Bool) (before : Text)
    (hr : packed rest = [] ∨ EndsInWord rest) : EndsInWord (before ++ (signed own gap w ++ rest)) := by
  have split : packed (before ++ (signed own gap w ++ rest)) =
      packed before ++ (signed own [] (upperAscii w) ++ packed rest) := by
    rw [packed_append, packed_append, packed_signed h hg]
  rcases hr with hr | ⟨u, v, hv, hr⟩
  · rw [hr, List.append_nil] at split
    cases own with
    | false => exact ⟨packed before, upperAscii w, h.upperAscii, split⟩
    | true => exact ⟨packed before ++ ['-'], upperAscii w, h.upperAscii, by simpa [signed] using split⟩
  · exact ⟨packed before ++ (signed own [] (upperAscii w) ++ u), v, hv, by simpa [hr] using split⟩

/-- Behind a term there is nothing to see, or a word is seen last. -/
theorem endsInWord_further {sum : List Summand} {rest : Text} (h : Further sum rest) :
    packed rest = [] ∨ EndsInWord rest := by
  induction h with
  | nil blank => exact .inl (packed_of_blank blank)
  | @cons sum term before between gap word rest subtracted own hb hw hg spelled number further ih =>
    have ends := endsInWord_signed spelled.isWord hg own (before ++ sign subtracted :: between) ih
    rw [List.append_assoc] at ends
    exact .inr ends

/-- A sum looks neither like a push nor like a pop: there is one minus in front at most, and no plus at the end. -/
theorem packed_ne_of_written {sum : List Summand} {t : Text} (h : Written sum t) :
    packed t ≠ "--SP".toList ∧ packed t ≠ "SP++".toList := by
  cases h with
  | @mk sum term before gap word rest minus hb hg spelled further =>
    have isWord := spelled.isWord
    constructor
    · intro push
      rw [packed_append, packed_append, packed_of_blank hb, packed_signed isWord hg] at push
      obtain ⟨c, u, hc⟩ := List.exists_cons_of_ne_nil isWord.upperAscii.ne_nil
      have unsigned : c ≠ '-' := (isWord.upperAscii.visible c (hc ▸ List.mem_cons_self ..)).2.2
      rw [hc] at push
      cases minus with
      | false => exact unsigned (List.cons.inj push).1
      | true => exact unsigned (List.cons.inj (List.cons.inj push).2).1
    · intro pop
      obtain ⟨u, w, hw, ends⟩ := endsInWord_signed isWord hg minus before (endsInWord_further further)
      rw [ends] at pop
      have last : w.getLast? = some '+' := by
        have same := congrArg List.getLast? pop
        rw [List.getLast?_append, List.getLast?_eq_some_getLast hw.ne_nil, Option.some_or] at same
        exact (List.getLast?_eq_some_getLast hw.ne_nil).trans same
      exact hw.unsigned.1 (List.mem_of_getLast? last)

/-- A sum that looks like SP is SP. -/
theorem eq_sp_of_written {sum : List Summand} {t : Text} (h : Written sum t) (sp : packed t = "SP".toList) :
    sum = [⟨false, .base .sp⟩] := by
  cases h with
  | @mk sum term before gap word rest minus hb hg spelled further =>
    have isWord := spelled.isWord
    rw [packed_append, packed_append, packed_of_blank hb, packed_signed isWord hg] at sp
    have unsigned (negative : Bool) : sign negative ∉ "SP".toList := by cases negative <;> decide
    cases minus with
    | true => exact absurd (sp ▸ List.mem_cons_self ..) (unsigned true)
    | false =>
      cases further with
      | nil blank =>
        rw [packed_of_blank blank, List.append_nil] at sp
        have name : upperAscii word = Base.sp.name := sp
        have found := (baseName_eq_some isWord).mpr name
        rw [spelled.baseName] at found
        cases term with
        | base b => cases found; rfl
        | label _ | number _ => cases found
      | @cons sum term before between gap word rest subtracted own hb hw hg spelled number further =>
        rw [packed_append, packed_sign] at sp
        have joint : sign subtracted ∈ "SP".toList := sp ▸ by simp
        exact absurd joint (unsigned subtracted)

/-! ## Adding up -/

theorem toOption_foldlM {parts : List (Bool × Text)} {sum : List Summand} (h : List.Forall₂ Reads parts sum)
    (inner : Text) (s : AddressSum) :
    (parts.foldlM (fun s term => AddressSum.add inner s term.1 term.2) s).toOption =
      sum.foldlM AddressSum.plus s := by
  induction h generalizing s with
  | nil => rfl
  | cons reads _ ih =>
    rw [List.foldlM_cons, List.foldlM_cons, toOption_bind, reads inner s]
    exact congrArg _ (funext ih)

/-- **Reading a sum in brackets is adding up its terms.** -/
theorem parseMemory_of_written {sum : List Summand} {t : Text} (h : Written sum t) (pos : Position) :
    (parseMemory pos t).toOption = (sum.foldlM AddressSum.plus {}).bind AddressSum.argument? := by
  have visible : upper ((trim t).filter (!isBlank ·)) = packed t := congrArg upper (filter_trim t)
  have stack := packed_ne_of_written h
  simp only [parseMemory, visible, stack.1, stack.2, false_and, if_false]
  by_cases sp : packed t = "SP".toList
  · rw [if_pos sp, eq_sp_of_written h sp]
    rfl
  · rw [if_neg sp, toOption_bind, terms_trim, toOption_foldlM (terms_of_written h)]
    refine congrArg _ (funext fun sum => ?_)
    cases sum.argument? <;> rfl

/-! ## Sums that are accepted -/

/-- **A sum that a memory operand can be**: at most one register, at most one value, and only numbers are subtracted. -/
structure Sensible (sum : List Summand) : Prop where
  oneBase : sum.countP (·.term.base?.isSome) ≤ 1
  oneValue : sum.countP (·.term.base?.isNone) ≤ 1
  subtracted : ∀ e ∈ sum, e.negative → e.term.IsNumber

namespace AddressSum

theorem plus_eq_some {s s' : AddressSum} {e : Summand} (h : s.plus e = some s') :
    (∃ b, e = ⟨false, .base b⟩ ∧ s.base = none ∧ s' = { s with base := some b }) ∨
      s.value = none ∧
        ((∃ name, e = ⟨false, .label name⟩ ∧ s' = { s with value := some (.label name) }) ∨
          ∃ negative n, e = ⟨negative, .number n⟩ ∧
            s' = { s with value := some (.number (.ofInt (if negative then -n else n))) }) := by
  obtain ⟨negative, term⟩ := e
  cases term with
  | base b =>
    simp only [plus] at h
    split at h <;> cases h
    next free =>
    simp only [Bool.or_eq_true, not_or, Bool.not_eq_true, Option.isSome_eq_false_iff, Option.isNone_iff_eq_none] at free
    exact .inl ⟨b, by rw [free.1], free.2, rfl⟩
  | label name =>
    simp only [plus] at h
    split at h <;> cases h
    next free =>
    simp only [Bool.or_eq_true, not_or, Bool.not_eq_true, Option.isSome_eq_false_iff, Option.isNone_iff_eq_none] at free
    exact .inr ⟨free.2, .inl ⟨name, by rw [free.1], rfl⟩⟩
  | number n =>
    simp only [plus] at h
    split at h <;> cases h
    next free =>
    rw [Bool.not_eq_true, Option.isSome_eq_false_iff, Option.isNone_iff_eq_none] at free
    exact .inr ⟨free, .inr ⟨negative, n, rfl, rfl⟩⟩

/-- How many registers and how many values have been read. -/
def size (s : AddressSum) : Nat × Nat := (s.base.toList.length, s.value.toList.length)

theorem isSome_foldlM (sum : List Summand) (s : AddressSum) :
    (sum.foldlM plus s).isSome ↔
      sum.countP (·.term.base?.isSome) + s.size.1 ≤ 1 ∧ sum.countP (·.term.base?.isNone) + s.size.2 ≤ 1 ∧
        ∀ e ∈ sum, e.negative → e.term.IsNumber := by
  induction sum generalizing s with
  | nil =>
    obtain ⟨_ | _, _ | _⟩ := s <;> simp [size, pure]
  | cons e sum ih =>
    obtain ⟨negative, term⟩ := e
    obtain ⟨base, value⟩ := s
    rw [List.foldlM_cons]
    -- a register takes one place and a value the other, which may not be taken yet
    cases term with
    | base b => cases negative <;> cases base <;> simp [plus, size, ih, Term.base?, Term.IsNumber]
    | label name => cases negative <;> cases value <;> simp [plus, size, ih, Term.base?, Term.IsNumber]
    | number n => cases value <;> simp [plus, size, ih, Term.base?, Term.IsNumber]

/-- What has been read of a sum is still there. -/
structure Keeps (s s' : AddressSum) : Prop where
  base : ∀ b ∈ s.base, b ∈ s'.base
  value : ∀ v ∈ s.value, v ∈ s'.value

theorem keeps_of_plus {s s' : AddressSum} {e : Summand} (h : s.plus e = some s') : Keeps s s' := by
  rcases plus_eq_some h with ⟨b, -, free, rfl⟩ | ⟨free, ⟨name, -, rfl⟩ | ⟨negative, n, -, rfl⟩⟩
  · exact ⟨by simp [free], fun v hv => hv⟩
  · exact ⟨fun b hb => hb, by simp [free]⟩
  · exact ⟨fun b hb => hb, by simp [free]⟩

theorem keeps_of_foldlM {sum : List Summand} {s s' : AddressSum} (h : sum.foldlM plus s = some s') : Keeps s s' := by
  induction sum generalizing s with
  | nil =>
    cases h
    exact ⟨fun b hb => hb, fun v hv => hv⟩
  | cons e sum ih =>
    rw [List.foldlM_cons] at h
    obtain ⟨s₁, first, rest⟩ := Option.bind_eq_some_iff.mp h
    have kept := keeps_of_plus first
    have later := ih rest
    exact ⟨fun b hb => later.base b (kept.base b hb), fun v hv => later.value v (kept.value v hv)⟩

/-- A sum of at least one term is an argument, if its terms can be added up. -/
theorem argument?_isSome_of_foldlM {e : Summand} {sum : List Summand} {s s' : AddressSum}
    (h : (e :: sum).foldlM plus s = some s') : s'.argument?.isSome := by
  rw [List.foldlM_cons] at h
  obtain ⟨s₁, first, rest⟩ := Option.bind_eq_some_iff.mp h
  have kept := keeps_of_foldlM rest
  obtain ⟨base, value⟩ := s'
  have read : base.isSome ∨ value.isSome := by
    rcases plus_eq_some first with ⟨b, -, -, rfl⟩ | ⟨-, ⟨name, -, rfl⟩ | ⟨negative, n, -, rfl⟩⟩
    · exact .inl (Option.isSome_of_mem (kept.base b rfl))
    · exact .inr (Option.isSome_of_mem (kept.value _ rfl))
    · exact .inr (Option.isSome_of_mem (kept.value _ rfl))
  rcases base with _ | _ | _ <;> rcases value with _ | _
  all_goals first | rfl | simp at read

end AddressSum

/-- **A sum in brackets is accepted exactly if a memory operand can be such a sum.** -/
theorem isOk_iff_sensible {sum : List Summand} {t : Text} (h : Written sum t) (pos : Position) :
    (parse pos ('[' :: t ++ [']'])).isOk ↔ Sensible sum := by
  have sensible : Sensible sum ↔ (sum.foldlM AddressSum.plus {}).isSome := by
    rw [AddressSum.isSome_foldlM]
    exact ⟨fun h => ⟨h.1, h.2, h.3⟩, fun h => ⟨h.1, h.2.1, h.2.2⟩⟩
  rw [parse_bracketed, isOk_eq_isSome, parseMemory_of_written h, sensible]
  cases added : sum.foldlM AddressSum.plus {} with
  | none => rfl
  | some s =>
    cases h
    exact iff_of_true (AddressSum.argument?_isSome_of_foldlM added) rfl

/-! ## What a sum comes to -/

section
variable (symbols : List (Text × Word)) (regs : Registers)

/-- The number that a term stands for: the word of a register or of SP, the address of a label or the number itself. -/
def Term.amount? : Term → Option Int
  | base b => some (b.word regs).toNat
  | label name => (symbols.lookup (upper name)).map fun w => (w.toNat : Int)
  | number n => some n

/-- The number that a summand adds. -/
def Summand.amount? (e : Summand) : Option Int :=
  (e.term.amount? symbols regs).map fun n => if e.negative then -n else n

/-- **The number that a sum comes to**, unless a label has no address. -/
def address? (sum : List Summand) : Option Int := (sum.mapM (Summand.amount? symbols regs)).map List.sum

end

section
variable {symbols : List (Text × Word)} (regs : Registers) {w : Word}

/-- A summand changes what a sum comes to by its amount. -/
theorem amount?_of_plus {s s' : AddressSum} {e : Summand} (h : s.plus e = some s')
    (hw : ∀ v ∈ s'.value, v.word? symbols = some w) :
    ∃ n, e.amount? symbols regs = some n ∧ s'.total regs w = s.total regs w + .ofInt n := by
  rcases AddressSum.plus_eq_some h with ⟨b, rfl, free, rfl⟩ | ⟨free, ⟨name, rfl, rfl⟩ | ⟨negative, n, rfl, rfl⟩⟩
  · refine ⟨(b.word regs).toNat, rfl, ?_⟩
    simp only [AddressSum.total, free, Option.map_some, Option.map_none, Option.getD_some, Option.getD_none,
      ofInt_toNat, UInt16.zero_add]
    exact UInt16.add_comm _ _
  · have word : symbols.lookup (upper name) = some w := hw _ rfl
    refine ⟨w.toNat, by simp [Summand.amount?, Term.amount?, word], ?_⟩
    simp [AddressSum.total, free, ofInt_toNat]
  · have word : Word.ofInt (if negative then -n else n) = w := Option.some.inj (hw _ rfl)
    refine ⟨if negative then -n else n, rfl, ?_⟩
    simp [AddressSum.total, free, word]

/-- **Terms that are added up come to the number that the sum comes to.** -/
theorem address?_of_foldlM {sum : List Summand} {s s' : AddressSum} (h : sum.foldlM AddressSum.plus s = some s')
    (hw : ∀ v ∈ s'.value, v.word? symbols = some w) :
    ∃ n, address? symbols regs sum = some n ∧ s'.total regs w = s.total regs w + .ofInt n := by
  induction sum generalizing s with
  | nil =>
    cases h
    exact ⟨0, rfl, (UInt16.add_zero _).symm⟩
  | cons e sum ih =>
    rw [List.foldlM_cons] at h
    obtain ⟨s₁, first, rest⟩ := Option.bind_eq_some_iff.mp h
    obtain ⟨m, amount, step⟩ :=
      amount?_of_plus regs first fun v hv => hw v ((AddressSum.keeps_of_foldlM rest).value v hv)
    obtain ⟨n, others, steps⟩ := ih rest
    refine ⟨m + n, ?_, by rw [steps, step, ofInt_add, UInt16.add_assoc]⟩
    obtain ⟨ns, found, rfl⟩ := Option.map_eq_some_iff.mp others
    rw [address?, List.mapM_cons, amount, found]
    simp

end

end Argument

end Dcpu16
