import Dcpu16.Proofs.Assembly.Accepted
import Dcpu16.Proofs.Assembly.Passes
import Dcpu16.Proofs.Text.Parts

/-!
# Names

A name is a word of ASCII characters (`IsWord`), so names that are told apart in upper case differ in more than ASCII
case (`upper_of_isName`). The labels that an accepted statement refers to are names (`Statement.wellNamed_of_parse`),
and so are those that a layout defines.
-/

namespace Dcpu16

/-! ## Characters of names -/

theorem upperChar_of_lt {c : Char} (h : c.toNat < 0x80) : upperChar c = [c.toUpper] := by
  unfold upperChar
  split <;> first | rfl | omega

theorem toNat_lt_of_isNameStart {c : Char} (h : isNameStart c) : c.toNat < 0x80 := by
  have upper (u : c.isUpper) : c.toNat ≤ 90 := UInt32.le_iff_toNat_le.mp (of_decide_eq_true u).2
  have lower (l : c.isLower) : c.toNat ≤ 122 :=
    UInt32.le_iff_toNat_le.mp (of_decide_eq_true (Bool.and_eq_true_iff.mp l).2)
  have alpha : c.isAlpha = (c.isUpper || c.isLower) := rfl
  simp only [isNameStart, alpha, Bool.or_eq_true, beq_iff_eq] at h
  rcases h with ((u | l) | rfl) | rfl
  · exact Nat.lt_of_le_of_lt (upper u) (by decide)
  · exact Nat.lt_of_le_of_lt (lower l) (by decide)
  · decide
  · decide

theorem toNat_lt_of_isDigit {c : Char} (h : c.isDigit) : c.toNat < 0x80 := by
  simp only [Char.isDigit, Bool.and_eq_true, decide_eq_true_eq, UInt32.le_iff_toNat_le, ge_iff_le] at h
  exact Nat.lt_of_le_of_lt h.2 (by decide)

/-- The upper-case form of an ASCII text differs from it in letters only. -/
theorem upper_of_ascii {t : Text} (ascii : ∀ c ∈ t, c.toNat < 0x80) : upper t = upperAscii t := by
  induction t with
  | nil => rfl
  | cons c cs ih =>
    have tail := ih fun d hd => ascii d (List.mem_cons_of_mem _ hd)
    unfold upper upperAscii at tail ⊢
    rw [List.flatMap_cons, upperChar_of_lt (ascii c (List.mem_cons_self ..)), tail]
    rfl

/-- What holds of the first 128 characters holds of every ASCII character. -/
theorem forall_ascii {p : Char → Prop} (h : ∀ n < 128, p (Char.ofNat n)) {c : Char} (hc : c.toNat < 0x80) : p c :=
  Char.ofNat_toNat c ▸ h c.toNat hc

/-- A text of characters of names. Names are such words, and so are numerals without a sign. -/
structure IsWord (t : Text) : Prop where
  ne_nil : t ≠ []
  chars : ∀ c ∈ t, isNameStart c || c.isDigit

theorem isWord_of_isName {t : Text} (h : isName t) : IsWord t := by
  cases t with
  | nil => cases h
  | cons c cs =>
    simp only [isName, Bool.and_eq_true, List.all_eq_true] at h
    exact ⟨List.cons_ne_nil _ _, List.forall_mem_cons.mpr ⟨by simp [h.1], h.2⟩⟩

namespace IsWord
variable {t : Text}

theorem ascii (h : IsWord t) : ∀ c ∈ t, c.toNat < 0x80 := by
  intro c hc
  rcases Bool.or_eq_true_iff.mp (h.chars c hc) with start | digit
  · exact toNat_lt_of_isNameStart start
  · exact toNat_lt_of_isDigit digit

theorem upper_eq (h : IsWord t) : upper t = upperAscii t := upper_of_ascii h.ascii

/-- No character of a word is a blank or a sign. -/
theorem visible (h : IsWord t) : ∀ c ∈ t, isBlank c = false ∧ c ≠ '+' ∧ c ≠ '-' := fun c hc =>
  forall_ascii (p := fun c => isNameStart c || c.isDigit → isBlank c = false ∧ c ≠ '+' ∧ c ≠ '-') (by decide +kernel)
    (h.ascii c hc) (h.chars c hc)

/-- No character of a word starts or ends a label, a string or a comment. -/
theorem plain (h : IsWord t) : ':' ∉ t ∧ '"' ∉ t ∧ ';' ∉ t := by
  have all : ∀ c ∈ [':', '"', ';'], (isNameStart c || c.isDigit) = false := by decide
  have other {c : Char} (hc : c ∈ [':', '"', ';']) : c ∉ t := fun ht => by simpa [all c hc] using h.chars c ht
  exact ⟨other (by simp), other (by simp), other (by simp)⟩

theorem trimmed (h : IsWord t) : Trimmed t := trimmed_of_forall fun c hc => (h.visible c hc).1

theorem trimLeft_append (h : IsWord t) {gap : Text} (hg : Blank gap) : trimLeft (gap ++ t) = t :=
  (Dcpu16.trimLeft_append hg t).trans (trimLeft_of_head h.trimmed.1)

/-- A word with a minus in front has no blanks at its ends. -/
theorem trimmed_minus (h : IsWord t) (gap : Text) : Trimmed ('-' :: (gap ++ t)) :=
  Trimmed.append_append (t := ['-']) (by decide) h.trimmed (by simp) h.ne_nil gap

theorem unsigned (h : IsWord t) : '+' ∉ t ∧ '-' ∉ t :=
  ⟨fun hp => (h.visible _ hp).2.1 rfl, fun hm => (h.visible _ hm).2.2 rfl⟩

theorem upperAscii (h : IsWord t) : IsWord (upperAscii t) where
  ne_nil := by simpa [Dcpu16.upperAscii] using h.ne_nil
  chars := by
    intro c hc
    obtain ⟨d, hd, rfl⟩ := List.mem_map.mp hc
    exact forall_ascii (p := fun c => isNameStart c || c.isDigit → isNameStart c.toUpper || c.toUpper.isDigit)
      (by decide +kernel) (h.ascii d hd) (h.chars d hd)

end IsWord

/-- The upper-case form of a name differs from the name in ASCII letters only. -/
theorem upper_of_isName {t : Text} (h : isName t) : upper t = upperAscii t := (isWord_of_isName h).upper_eq

/-! ## Labels in statements -/

/-- A value that is a number or the name of a label. -/
def Value.WellNamed : Value → Prop
  | number _ => True
  | label name => isName name

theorem Value.wellNamed_of_parse {t : Text} {v : Value} (h : Value.parse t = .ok v) : v.WellNamed := by
  rcases Value.parse_eq_ok h with ⟨n, -, rfl⟩ | ⟨-, name, rfl⟩
  · trivial
  · exact name

namespace Argument

theorem AddressSum.wellNamed_of_foldlM {inner : Text} {ts : List (Bool × Text)} {s s' : AddressSum}
    (h : ts.foldlM (fun s term => AddressSum.add inner s term.1 term.2) s = .ok s')
    (hs : ∀ v ∈ s.value, v.WellNamed) : ∀ v ∈ s'.value, v.WellNamed := by
  induction ts generalizing s with
  | nil => exact Except.ok.inj h ▸ hs
  | cons t ts ih =>
    rw [List.foldlM_cons] at h
    obtain ⟨s₁, first, rest⟩ := bind_eq_ok.mp h
    apply ih rest
    rcases AddressSum.add_eq_ok first with ⟨b, -, -, -, rfl⟩ | ⟨-, -, ⟨n, -, rfl⟩ | ⟨name, hn, -, rfl⟩⟩
    · exact hs
    · rintro v ⟨⟩
      trivial
    · rintro v ⟨⟩
      exact Value.wellNamed_of_parse hn

theorem wellNamed_of_parseMemory {pos : Position} {inner : Text} {a : Argument} (h : parseMemory pos inner = .ok a) :
    ∀ v ∈ a.next, v.WellNamed := by
  rcases parseMemory_eq_ok h with ⟨-, rfl⟩ | ⟨-, ⟨-, rfl⟩ | ⟨-, ⟨-, rfl⟩ | ⟨-, sum, hsum, ha⟩⟩⟩
  · simp
  · simp
  · simp
  · obtain ⟨-, next, -⟩ : Fits pos a ∧ _ := AddressSum.argument?_eq_some ha
    rw [next]
    exact AddressSum.wellNamed_of_foldlM hsum (by simp)

theorem wellNamed_of_parse {pos : Position} {t : Text} {a : Argument} (h : parse pos t = .ok a) :
    ∀ v ∈ a.next, v.WellNamed := by
  rcases parse_eq_ok h with ⟨inner, -, hi⟩ | ⟨-, hn | ⟨-, ⟨rest, v, -, hv, rfl⟩ | ⟨-, v, hv, rfl⟩⟩⟩
  · exact wellNamed_of_parseMemory hi
  · rw [((named_eq_ok hn).1 a rfl).2]
    simp
  · rintro u ⟨⟩
    exact Value.wellNamed_of_parse hv
  · rcases ofValue_cases pos v with next | ⟨n, -, -, -, short⟩
    · rw [next]
      rintro u ⟨⟩
      exact Value.wellNamed_of_parse hv
    · rw [short]
      simp

end Argument

namespace Statement

/-- The values that are written in a statement, in the order of their words. -/
def values : Statement → List Value
  | data values => values
  | origin _ => []
  | basic _ b a => a.next.toList ++ b.next.toList
  | special _ a => a.next.toList

theorem wellNamed_of_parseItem {t : Text} {vs : List Value} (h : parseItem t = .ok vs) : ∀ v ∈ vs, v.WellNamed := by
  unfold parseItem at h
  split at h
  · split at h
    · obtain ⟨ws, -, h⟩ := bind_eq_ok.mp h
      cases h
      simp [Value.WellNamed]
    · cases h
  · obtain ⟨v, hv, h⟩ := bind_eq_ok.mp h
    cases h
    simpa using Value.wellNamed_of_parse hv

theorem wellNamed_of_parseData {rest : Text} {st : Statement} (h : parseData rest = .ok st) :
    ∀ v ∈ st.values, v.WellNamed := by
  simp only [parseData] at h
  split at h
  · cases h
  · obtain ⟨vss, hvss, h⟩ := bind_eq_ok.mp h
    cases h
    intro v hv
    obtain ⟨vs, hvs, hv⟩ := List.mem_flatten.mp hv
    obtain ⟨item, -, hitem⟩ := mem_of_mapM_eq_ok hvss hvs
    exact wellNamed_of_parseItem hitem v hv

/-- The labels that an accepted statement refers to are names. -/
theorem wellNamed_of_parse {t : Text} {st : Statement} (h : parse t = .ok st) : ∀ v ∈ st.values, v.WellNamed := by
  have ofArgument {pos : Position} {u : Text} {a : Argument} (ha : Argument.parse pos u = .ok a) :
      ∀ v ∈ a.next.toList, v.WellNamed := fun v hv => Argument.wellNamed_of_parse ha v (Option.mem_toList.mp hv)
  simp only [parse] at h
  split at h
  · exact wellNamed_of_parseData h
  · split at h
    · obtain ⟨v, -, h⟩ := bind_eq_ok.mp h
      split at h <;> cases h
      simp [values]
    · split at h
      · unfold parseBasic at h
        split at h
        · obtain ⟨b, hb, h⟩ := bind_eq_ok.mp h
          obtain ⟨a, ha, h⟩ := bind_eq_ok.mp h
          cases h
          exact List.forall_mem_append.mpr ⟨ofArgument ha, ofArgument hb⟩
        · cases h
      · unfold parseSpecial at h
        split at h
        · obtain ⟨a, ha, h⟩ := bind_eq_ok.mp h
          cases h
          exact ofArgument ha
        · cases h
      · cases h

end Statement

/-! ## Labels in layouts -/

namespace Layout

theorem isName_of_define {l l' : Layout} {name : Text} (h : l.define name = .ok l') : isName name := by
  unfold define at h
  split at h
  · cases h
  · next named => simpa using named

theorem isName_of_names {l l' : Layout} {names : List Text} (h : names.foldlM define l = .ok l') :
    ∀ name ∈ names, isName name := by
  induction names generalizing l with
  | nil => simp
  | cons name names ih =>
    rw [List.foldlM_cons] at h
    obtain ⟨l₁, first, rest⟩ := bind_eq_ok.mp h
    exact List.forall_mem_cons.mpr ⟨isName_of_define first, ih rest⟩

/-- The labels in front of lines that are laid out are names. -/
theorem isName_of_addLines {l l' : Layout} {line : Nat} {ts : List Text} (h : l.addLines line ts = .ok l') :
    ∀ t ∈ ts, ∀ name ∈ (splitLine t).1, isName name := by
  induction ts generalizing l line with
  | nil => simp
  | cons t ts ih =>
    obtain ⟨l₁, first, rest⟩ := addLines_cons_eq_ok.mp h
    obtain ⟨l₂, names, -⟩ := addLine_eq_ok first
    exact List.forall_mem_cons.mpr ⟨isName_of_names names, ih rest⟩

end Layout

end Dcpu16
