import Dcpu16.Proofs.Assembly.UnsignedNumerals

/-!
# Which texts are numbers

A number is written as an unsigned numeral, maybe with a minus and blanks in front (`Signed Unsigned`). The assembler
reads every such text as its value, or reports the value if it is that of no word. But it leaves the digits behind the
mark of a radix to a reader that takes a sign of its own, so these may have one too (`Signed Marked`): `0x+5` is read as
5 and `-0x-5` as well (`Value.parse_numerals`, `sign_behind_mark`). Only there can the minus in front leave 64 bits.
-/

namespace Dcpu16

namespace Numeral

/-! ## Digits -/

theorem digits_of_foldlM {radix : Nat} (h : radix ≤ 16) {t : Text} {acc n : Nat}
    (read : t.foldlM (fun n c => (digit? radix c).map (n * radix + ·)) acc = some n) :
    ∀ c ∈ t, digitValue c < radix := by
  induction t generalizing acc with
  | nil => simp
  | cons c cs ih =>
    rw [List.foldlM_cons] at read
    obtain ⟨next, first, rest⟩ := Option.bind_eq_some_iff.mp read
    obtain ⟨d, digit, -⟩ := Option.map_eq_some_iff.mp first
    rw [digit?_eq h] at digit
    split at digit
    · next below => exact List.forall_mem_cons.mpr ⟨below, ih rest⟩
    · cases digit

theorem digits?_eq_some_iff {radix : Nat} (h : radix ≤ 16) {t : Text} {n : Nat} :
    digits? radix t = some n ↔ Digits radix t ∧ n = positional radix t := by
  constructor
  · intro read
    have digits : Digits radix t := by
      unfold digits? at read
      split at read
      · cases read
      · next visible => exact ⟨by simpa using visible, digits_of_foldlM h read⟩
    exact ⟨digits, Option.some.inj (read.symm.trans (digits?_of_digits h digits))⟩
  · rintro ⟨digits, rfl⟩
    exact digits?_of_digits h digits

/-- Digits with a sign of their own. -/
inductive OwnSign (radix : Nat) : Text → Int → Prop
  | plus {ds : Text} (h : Digits radix ds) : OwnSign radix ('+' :: ds) (positional radix ds)
  | minus {ds : Text} (h : Digits radix ds) : OwnSign radix ('-' :: ds) (-positional radix ds)

/-- A number with a sign in 64 bits. -/
def Fits (m : Int) : Prop := -0x8000000000000000 ≤ m ∧ m < 0x8000000000000000

instance (m : Int) : Decidable (Fits m) := by unfold Fits; infer_instance

/-- The reader of digits takes them with a sign of their own and without one. -/
theorem signed?_eq_some_iff {radix : Nat} (h : radix ≤ 16) {t : Text} {m : Int} :
    signed? radix t = some m ↔ ((Digits radix t ∧ m = positional radix t) ∨ OwnSign radix t m) ∧ Fits m := by
  have sign {c : Char} (hc : digitValue c = 16) (ds : Text) : ¬ Digits radix (c :: ds) := fun digits => by
    have := digits.2 c (List.mem_cons_self ..)
    omega
  have inner {x : Option Int} {f : Nat → Int} {ds : Text} (hx : x = (digits? radix ds).map f) :
      x = some m ↔ Digits radix ds ∧ m = f (positional radix ds) := by
    rw [hx, Option.map_eq_some_iff]
    constructor
    · rintro ⟨n, read, rfl⟩
      obtain ⟨digits, rfl⟩ := (digits?_eq_some_iff h).mp read
      exact ⟨digits, rfl⟩
    · rintro ⟨digits, rfl⟩
      exact ⟨_, digits?_of_digits h digits, rfl⟩
  simp only [signed?, Option.filter_eq_some_iff, Bool.and_eq_true, decide_eq_true_eq]
  refine and_congr_left fun _ => ?_
  split
  · next ds =>
    rw [inner (f := fun n => -(n : Int)) (by cases digits? radix ds <;> rfl)]
    constructor
    · rintro ⟨digits, rfl⟩
      exact .inr (.minus digits)
    · rintro (⟨digits, -⟩ | digits)
      · exact absurd digits (sign (by decide) ds)
      · cases digits with
        | minus digits => exact ⟨digits, rfl⟩
  · next ds =>
    rw [inner rfl]
    constructor
    · rintro ⟨digits, rfl⟩
      exact .inr (.plus digits)
    · rintro (⟨digits, -⟩ | digits)
      · exact absurd digits (sign (by decide) ds)
      · cases digits with
        | plus digits => exact ⟨digits, rfl⟩
  · next minus plus =>
    rw [inner rfl]
    constructor
    · exact .inl
    · rintro (digits | digits)
      · exact digits
      · cases digits with
        | plus => exact absurd rfl (plus _)
        | minus => exact absurd rfl (minus _)

/-! ## Without the minus in front -/

/-- An unsigned numeral and the number that it denotes. -/
def Unsigned (t : Text) (m : Int) : Prop := ∃ n : Nat, Denotes t n ∧ m = n

/-- The marks of the radices that are not ten. -/
def marks : List (Char × Nat) := [('x', 16), ('X', 16), ('b', 2), ('B', 2)]

/-- **A numeral with a sign behind the mark of its radix.** -/
inductive Marked : Text → Int → Prop
  | intro {mark : Char} {radix : Nat} {t : Text} {m : Int} (hm : (mark, radix) ∈ marks) (h : OwnSign radix t m) :
    Marked ('0' :: mark :: t) m

section
variable {mark : Char} {radix : Nat} {t : Text} {m : Int}

theorem radix_le_of_mark (hm : (mark, radix) ∈ marks) : radix ≤ 16 := by
  have all : ∀ pair ∈ marks, pair.2 ≤ 16 := by decide
  exact all _ hm

theorem radix_unique {radix' : Nat} (hm : (mark, radix) ∈ marks) (hm' : (mark, radix') ∈ marks) : radix = radix' := by
  have all : ∀ pair ∈ marks, ∀ pair' ∈ marks, pair.1 = pair'.1 → pair.2 = pair'.2 := by decide
  exact all _ hm _ hm' rfl

theorem magnitude?_of_mark (hm : (mark, radix) ∈ marks) : magnitude? ('0' :: mark :: t) = signed? radix t := by
  simp only [marks, List.mem_cons, Prod.mk.injEq, List.not_mem_nil, or_false] at hm
  rcases hm with ⟨rfl, rfl⟩ | ⟨rfl, rfl⟩ | ⟨rfl, rfl⟩ | ⟨rfl, rfl⟩ <;> rfl

theorem magnitude?_of_unmarked (unmarked : ∀ mark radix ds, (mark, radix) ∈ marks → t ≠ '0' :: mark :: ds) :
    magnitude? t = if t.head?.any (·.isDigit) then signed? 10 t else none := by
  unfold magnitude?
  split
  · exact absurd rfl (unmarked 'x' 16 _ (by decide))
  · exact absurd rfl (unmarked 'X' 16 _ (by decide))
  · exact absurd rfl (unmarked 'b' 2 _ (by decide))
  · exact absurd rfl (unmarked 'B' 2 _ (by decide))
  · rfl
  · rfl

theorem unsigned_of_mark (hm : (mark, radix) ∈ marks) :
    Unsigned ('0' :: mark :: t) m ↔ Digits radix t ∧ m = positional radix t := by
  constructor
  · rintro ⟨n, h, rfl⟩
    cases h with
    | decimal digits =>
      have all : ∀ pair ∈ marks, ¬ digitValue pair.1 < 10 := by decide
      exact absurd (digits.2 mark (by simp)) (all _ hm)
    | hexadecimal hx digits =>
      cases radix_unique hm (by rcases hx with rfl | rfl <;> decide : (mark, 16) ∈ marks)
      exact ⟨digits, rfl⟩
    | binary hb digits =>
      cases radix_unique hm (by rcases hb with rfl | rfl <;> decide : (mark, 2) ∈ marks)
      exact ⟨digits, rfl⟩
  · rintro ⟨digits, rfl⟩
    refine ⟨_, ?_, rfl⟩
    simp only [marks, List.mem_cons, Prod.mk.injEq, List.not_mem_nil, or_false] at hm
    rcases hm with ⟨rfl, rfl⟩ | ⟨rfl, rfl⟩ | ⟨rfl, rfl⟩ | ⟨rfl, rfl⟩
    · exact .hexadecimal (.inl rfl) digits
    · exact .hexadecimal (.inr rfl) digits
    · exact .binary (.inl rfl) digits
    · exact .binary (.inr rfl) digits

theorem unsigned_of_unmarked (unmarked : ∀ mark radix ds, (mark, radix) ∈ marks → t ≠ '0' :: mark :: ds) :
    Unsigned t m ↔ Digits 10 t ∧ m = positional 10 t := by
  constructor
  · rintro ⟨n, h, rfl⟩
    cases h with
    | decimal digits => exact ⟨digits, rfl⟩
    | hexadecimal hx => exact absurd rfl (unmarked _ 16 _ (by rcases hx with rfl | rfl <;> decide))
    | binary hb => exact absurd rfl (unmarked _ 2 _ (by rcases hb with rfl | rfl <;> decide))
  · rintro ⟨digits, rfl⟩
    exact ⟨_, .decimal digits, rfl⟩

/-- Without the minus in front, what is read is an unsigned numeral or one with a sign behind its mark. -/
theorem magnitude?_eq_some_iff : magnitude? t = some m ↔ (Unsigned t m ∨ Marked t m) ∧ Fits m := by
  by_cases marked : ∃ mark radix ds, (mark, radix) ∈ marks ∧ t = '0' :: mark :: ds
  · obtain ⟨mark, radix, ds, hm, rfl⟩ := marked
    have own : Marked ('0' :: mark :: ds) m ↔ OwnSign radix ds m := by
      constructor
      · rintro ⟨hm', h⟩
        exact radix_unique hm hm' ▸ h
      · exact .intro hm
    rw [magnitude?_of_mark hm, signed?_eq_some_iff (radix_le_of_mark hm), unsigned_of_mark hm, own]
  · have unmarked (mark : Char) (radix : Nat) (ds : Text) (hm : (mark, radix) ∈ marks) : t ≠ '0' :: mark :: ds :=
      fun e => marked ⟨mark, radix, ds, hm, e⟩
    have noMark : ¬ Marked t m := by
      rintro ⟨hm, -⟩
      exact unmarked _ _ _ hm rfl
    rw [magnitude?_of_unmarked unmarked, or_iff_left noMark, unsigned_of_unmarked unmarked]
    split
    · next first =>
      have noSign : ¬ OwnSign 10 t m := by
        intro h
        cases h <;> cases first
      rw [signed?_eq_some_iff (by decide), or_iff_left noSign]
    · next other =>
      refine iff_of_false nofun ?_
      rintro ⟨⟨digits, -⟩, -⟩
      obtain ⟨c, cs, rfl⟩ := List.exists_cons_of_ne_nil digits.1
      exact other (isDigit_of_digitValue (digits.2 c (List.mem_cons_self ..)))

/-- What is read without the minus starts with a digit. -/
theorem head_of_magnitude? (h : magnitude? t = some m) : ∀ c ∈ t.head?, isBlank c = false ∧ c ≠ '-' := by
  obtain ⟨c, cs, rfl, digit⟩ : ∃ c cs, t = c :: cs ∧ c.isDigit := by
    rcases (magnitude?_eq_some_iff.mp h).1 with ⟨n, numeral, -⟩ | ⟨hm, own⟩
    · exact numeral.eq_cons
    · exact ⟨_, _, rfl, rfl⟩
  rintro _ ⟨⟩
  have word : IsWord [c] := ⟨List.cons_ne_nil _ _, List.forall_mem_singleton.mpr (by rw [digit, Bool.or_true])⟩
  have visible := word.visible c (List.mem_singleton_self c)
  exact ⟨visible.1, visible.2.2⟩

end

/-! ## With the minus in front -/

/-- **A number that may have a minus and blanks in front**, without which it fits 64 bits. -/
inductive Signed (R : Text → Int → Prop) : Text → Int → Prop
  | plain {t : Text} {m : Int} (h : R t m) (fits : Fits m) : Signed R t m
  | minus {gap t : Text} {m : Int} (hg : Blank gap) (h : R t m) (fits : Fits m) : Signed R ('-' :: (gap ++ t)) (-m)

/-- **What is read as a number**: a numeral, or what has a sign behind the mark of its radix. -/
def Read (t : Text) (v : Int) : Prop := Signed Unsigned t v ∨ Signed Marked t v

section
variable {t : Text} {v : Int}

/-- What is read as a number is found without the minus, or behind it. -/
theorem Signed.found {R : Text → Int → Prop} (read : ∀ t m, R t m → Fits m → magnitude? t = some m)
    (h : Signed R t v) :
    magnitude? t = some v ∨ ∃ rest m, t = '-' :: rest ∧ magnitude? (trimLeft rest) = some m ∧ v = -m := by
  cases h with
  | plain h fits => exact .inl (read _ _ h fits)
  | @minus gap t m hg h fits =>
    have own := read _ _ h fits
    refine .inr ⟨gap ++ t, m, rfl, ?_, rfl⟩
    rw [trimLeft_append hg, trimLeft_of_head fun c hc => (head_of_magnitude? own c hc).1, own]

theorem read_iff :
    Read t v ↔ magnitude? t = some v ∨ ∃ rest m, t = '-' :: rest ∧ magnitude? (trimLeft rest) = some m ∧ v = -m := by
  constructor
  · rintro (h | h)
    · exact h.found fun t m own fits => magnitude?_eq_some_iff.mpr ⟨.inl own, fits⟩
    · exact h.found fun t m own fits => magnitude?_eq_some_iff.mpr ⟨.inr own, fits⟩
  · rintro (h | ⟨rest, m, rfl, h, rfl⟩)
    · obtain ⟨own, fits⟩ := magnitude?_eq_some_iff.mp h
      exact own.imp (.plain · fits) (.plain · fits)
    · obtain ⟨own, fits⟩ := magnitude?_eq_some_iff.mp h
      have whole : rest.takeWhile isBlank ++ trimLeft rest = rest := List.takeWhile_append_dropWhile
      rw [← whole]
      exact own.imp (.minus (blank_takeWhile rest) · fits) (.minus (blank_takeWhile rest) · fits)

/-- **The number found is what is read**, at most one value; the one that is no negative in 64 bits leaves its type. -/
theorem number?_spec (t : Text) :
    (∃ v, (∀ w, Read t w ↔ w = v) ∧ number? t = if v = 0x8000000000000000 then none else some (some v)) ∨
      (∀ w, ¬ Read t w) ∧ number? t = some none := by
  by_cases minus : ∃ rest, t = '-' :: rest
  · obtain ⟨rest, rfl⟩ := minus
    have behind (w : Int) : Read ('-' :: rest) w ↔ ∃ m, magnitude? (trimLeft rest) = some m ∧ w = -m := by
      have front : magnitude? ('-' :: rest) = none := rfl
      rw [read_iff, front, or_iff_right (Option.some_ne_none w).symm]
      constructor
      · rintro ⟨_, m, e, h⟩
        cases e
        exact ⟨m, h⟩
      · rintro ⟨m, h⟩
        exact ⟨rest, m, rfl, h⟩
    simp only [behind, number?]
    cases found : magnitude? (trimLeft rest) with
    | none =>
      refine .inr ⟨?_, rfl⟩
      rintro w ⟨m, h, -⟩
      cases h
    | some m =>
      refine .inl ⟨-m, fun w => by simp, ?_⟩
      have fits := (magnitude?_eq_some_iff.mp found).2
      unfold Fits at fits
      have limit : (Width.limit (64 - 1) : Int) = 0x8000000000000000 := rfl
      simp only [Width.signed, limit]
      split
      · next fits => rw [if_neg (by omega), Option.map_some]
      · next leaves => rw [if_pos (by omega), Option.map_none]
  · have unsigned : t.head? ≠ some '-' := fun e => minus (List.head?_eq_some_iff.mp e)
    have front (w : Int) : Read t w ↔ magnitude? t = some w := by
      refine read_iff.trans (or_iff_left ?_)
      rintro ⟨rest, _, e, -⟩
      exact minus ⟨rest, e⟩
    simp only [front, number?_of_head unsigned]
    cases found : magnitude? t with
    | none => exact .inr ⟨fun w => (Option.some_ne_none w).symm, rfl⟩
    | some m =>
      have fits := (magnitude?_eq_some_iff.mp found).2
      refine .inl ⟨m, fun w => by rw [Option.some.injEq, eq_comm], ?_⟩
      rw [if_neg fun least => absurd (least ▸ fits) (by decide)]

/-- A numeral without a sign behind its mark never has the value that leaves its type. -/
theorem read_limit : Read t 0x8000000000000000 ↔ Signed Marked t 0x8000000000000000 := by
  refine or_iff_right fun h => ?_
  generalize limit : (0x8000000000000000 : Int) = v at h
  cases h with
  | plain h fits => exact absurd (limit ▸ fits) (by decide)
  | minus hg h fits =>
    obtain ⟨n, -, rfl⟩ := h
    omega

end

end Numeral

namespace Value

theorem parse_of_some {t : Text} {n : Int} (h : Numeral.number? (trim t) = some (some n)) :
    parse t = if -0x8000 ≤ n ∧ n ≤ 0xffff then .ok (number (.ofInt n)) else .error (.outOfRange n) := by
  simp only [parse, h, Bool.and_eq_true, decide_eq_true_eq]

theorem parse_of_none {t : Text} (h : Numeral.number? (trim t) = some none) :
    parse t = if isName (trim t) then .ok (label (trim t)) else .error (.malformed (.notAValue (trim t))) := by
  simp only [parse, h]

theorem parse_of_overflow {t : Text} (h : Numeral.number? (trim t) = none) : parse t = .error .overflow := by
  simp only [parse, h]

/-- A text that does not read as a number is a label or malformed. -/
theorem parse_of_not_read {t : Text} (other : ∀ v, ¬ Numeral.Read (trim t) v) :
    parse t = if isName (trim t) then .ok (label (trim t)) else .error (.malformed (.notAValue (trim t))) := by
  rcases Numeral.number?_spec (trim t) with ⟨v, read, -⟩ | ⟨-, found⟩
  · exact absurd ((read v).mpr rfl) (other v)
  · exact parse_of_none found

/-- A text that reads as a number is that number, or is reported. -/
theorem parse_of_read {t : Text} {v : Int} (h : Numeral.Read (trim t) v) :
    parse t =
      if -0x8000 ≤ v ∧ v ≤ 0xffff then .ok (number (.ofInt v))
      else if v = 0x8000000000000000 then .error .overflow
      else .error (.outOfRange v) := by
  rcases Numeral.number?_spec (trim t) with ⟨w, read, found⟩ | ⟨none, -⟩
  · cases (read v).mp h
    by_cases least : v = 0x8000000000000000
    · rw [if_pos least] at found
      rw [if_neg (by omega), if_pos least, parse_of_overflow found]
    · rw [if_neg least] at found
      rw [if_neg least, parse_of_some found]
  · exact absurd h (none v)

theorem ofInt_eq_iff (n : Int) (w : Word) : Word.ofInt n = w ↔ (w.toNat : Int) = n % 0x10000 := by
  have := Word.toNat_ofInt n
  rw [← UInt16.toNat_inj]
  omega

/-- **Which texts are numbers.** The blanks around a text aside, it is a number if and only if it reads as the value of
a word, signed or not, and then it is the word that is the value modulo 65536. Other values are reported, but for a
single one, which leaves its type. Any other text is a label if it is a name, and is malformed if it is not. What is
read has at most one minus and then an unsigned numeral of less than 2 ^ 63, or else one with a sign behind the mark of
its radix; the value that leaves its type is written in the second way. -/
theorem parse_numerals (t : Text) :
    (∀ w, parse t = .ok (number w) ↔
      ∃ v, Numeral.Read (trim t) v ∧ (-0x8000 ≤ v ∧ v ≤ 0xffff) ∧ (w.toNat : Int) = v % 0x10000) ∧
    (∀ v, parse t = .error (.outOfRange v) ↔
      Numeral.Read (trim t) v ∧ ¬ (-0x8000 ≤ v ∧ v ≤ 0xffff) ∧ v ≠ 0x8000000000000000) ∧
    (parse t = .error .overflow ↔ Numeral.Signed Numeral.Marked (trim t) 0x8000000000000000) ∧
    ((∀ v, ¬ Numeral.Read (trim t) v) →
      parse t = if isName (trim t) then .ok (label (trim t)) else .error (.malformed (.notAValue (trim t)))) := by
  rw [← Numeral.read_limit]
  refine ⟨fun w => ?_, fun v => ?_, ?_, parse_of_not_read⟩
  all_goals rcases Numeral.number?_spec (trim t) with ⟨r, read, -⟩ | ⟨none, -⟩
  · rw [parse_of_read ((read r).mpr rfl)]
    simp only [read, exists_eq_left]
    by_cases inside : -0x8000 ≤ r ∧ r ≤ 0xffff
    · simp [inside, ofInt_eq_iff]
    · simp only [inside, if_false, false_and, iff_false]
      split <;> nofun
  · rw [parse_of_not_read none]
    simp only [none, false_and, exists_false, iff_false]
    split <;> nofun
  · rw [parse_of_read ((read r).mpr rfl), read]
    by_cases inside : -0x8000 ≤ r ∧ r ≤ 0xffff
    · rw [if_pos inside]
      exact iff_of_false nofun fun ⟨e, outside, _⟩ => outside (e ▸ inside)
    · rw [if_neg inside]
      split
      · next least => exact iff_of_false nofun fun ⟨e, _, other⟩ => other (e.trans least)
      · next other =>
        constructor
        · rintro ⟨⟩
          exact ⟨rfl, inside, other⟩
        · rintro ⟨rfl, -⟩
          rfl
  · rw [parse_of_not_read none]
    simp only [none, false_and, iff_false]
    split <;> nofun
  · rw [parse_of_read ((read r).mpr rfl), read]
    by_cases least : r = 0x8000000000000000
    · subst least
      exact iff_of_true rfl rfl
    · rw [if_neg least]
      refine iff_of_false ?_ (Ne.symm least)
      split <;> nofun
  · rw [parse_of_not_read none]
    refine iff_of_false ?_ (none _)
    split <;> nofun

/-- **A sign behind the mark of a radix is no error**: `0x+5` is a number although it is no numeral. And of the lowest
number that fits 64 bits, written in this way, there is no negative. -/
theorem sign_behind_mark :
    (¬ ∀ t w, parse t = .ok (number w) ↔ ∃ v, Numeral.Signed Numeral.Unsigned (trim t) v ∧
      (-0x8000 ≤ v ∧ v ≤ 0xffff) ∧ (w.toNat : Int) = v % 0x10000) ∧
    parse "-0x-8000000000000000".toList = .error .overflow := by
  refine ⟨fun rule => ?_, by decide⟩
  have read : parse "0x+5".toList = .ok (number 5) := rfl
  obtain ⟨v, written, -⟩ := (rule _ _).mp read
  have bare : trim "0x+5".toList = "0x+5".toList := by decide
  rw [bare] at written
  generalize text : "0x+5".toList = t at written
  cases written with
  | plain h =>
    subst text
    have digits := (Numeral.unsigned_of_mark (by decide : ('x', 16) ∈ Numeral.marks)).mp h
    exact absurd digits.1 (by decide)
  | minus => cases text

end Value

end Dcpu16
