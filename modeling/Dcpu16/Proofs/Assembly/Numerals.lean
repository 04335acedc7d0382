import Dcpu16.Proofs.Text.Parts

/-!
# Numerals are read back

The numerals in which words are shown are values of program texts, and reading one gives the word again
(`parse_numeral`, and `parse_decimal` for decimal ones). They are made of few characters, none of which means anything
else to the assembler.
-/

namespace Dcpu16

/-! ## Digits -/

/-- The characters of numerals. -/
def numeralChars : Text := "0123456789abcdefx".toList

theorem hexDigit_mod (n : Nat) : hexDigit (n % 16) = hexDigit n := by simp [hexDigit]

theorem hexDigit_mem (n : Nat) : hexDigit n ∈ numeralChars := by
  have small : ∀ k < 16, hexDigit k ∈ numeralChars := by decide
  exact hexDigit_mod n ▸ small _ (Nat.mod_lt _ (by decide))

theorem digit?_hexDigit (n : Nat) : Numeral.digit? 16 (hexDigit n) = some (n % 16) := by
  have small : ∀ k < 16, Numeral.digit? 16 (hexDigit k) = some k := by decide
  exact hexDigit_mod n ▸ small _ (Nat.mod_lt _ (by decide))

theorem mem_hexDigits {width n : Nat} {c : Char} (h : c ∈ hexDigits width n) : c ∈ numeralChars := by
  induction width generalizing n with
  | zero => simp [hexDigits] at h
  | succ k ih =>
    rcases List.mem_append.mp h with h | h
    · exact ih h
    · exact List.mem_singleton.mp h ▸ hexDigit_mem n

theorem digitChar_eq_hexDigit {d : Nat} (h : d < 16) : d.digitChar = hexDigit d := by
  have small : ∀ k < 16, Nat.digitChar k = hexDigit k := by decide
  exact small d h

theorem hexDigits_zero (width : Nat) : hexDigits width 0 = List.replicate width '0' := by
  induction width with
  | zero => rfl
  | succ k ih =>
    rw [hexDigits, Nat.zero_div, ih, List.replicate_succ']
    rfl

/-- A numeral that fits into its width has exactly the digits of that width. -/
theorem hexNumeral_eq_hexDigits {width n : Nat} (h : n < Nat.pow 16 (width + 1)) :
    hexNumeral (width + 1) n = hexDigits (width + 1) n := by
  induction width generalizing n with
  | zero =>
    have small : n < 16 := by simpa using h
    rw [hexNumeral, Nat.toDigits_of_lt_base small, digitChar_eq_hexDigit small]
    rfl
  | succ k ih =>
    by_cases small : n < 16
    · rw [hexNumeral, Nat.toDigits_of_lt_base small, digitChar_eq_hexDigit small, hexDigits, Nat.div_eq_of_lt small,
        hexDigits_zero]
      rfl
    · have quotient : n / 16 < Nat.pow 16 (k + 1) := (Nat.div_lt_iff_lt_mul (by decide)).mpr h
      have padded (ds : Text) (c : Char) : (ds ++ [c]).leftpad (k + 2) '0' = ds.leftpad (k + 1) '0' ++ [c] := by
        simp [List.leftpad]
      rw [hexDigits, ← ih quotient, hexNumeral, Nat.toDigits_of_base_le (by decide) (by omega), padded,
        digitChar_eq_hexDigit (Nat.mod_lt n (by decide)), hexDigit_mod, hexNumeral]

/-- Reading digits behind a number `acc` shifts it and adds the value of the digits. -/
theorem foldlM_hexDigits (width n acc : Nat) :
    (hexDigits width n).foldlM (fun n c => (Numeral.digit? 16 c).map (n * 16 + ·)) acc =
      some (acc * Nat.pow 16 width + n % Nat.pow 16 width) := by
  induction width generalizing n with
  | zero => simp [hexDigits, Nat.mod_one]
  | succ k ih =>
    have power : Nat.pow 16 (k + 1) = 16 * Nat.pow 16 k := Nat.pow_succ'
    have shift : (acc * Nat.pow 16 k + n / 16 % Nat.pow 16 k) * 16 + n % 16 =
        acc * Nat.pow 16 (k + 1) + n % Nat.pow 16 (k + 1) := by
      rw [power, Nat.mod_mul, Nat.mul_left_comm]
      omega
    rw [hexDigits, List.foldlM_append, ih, ← shift]
    simp only [List.foldlM_cons, List.foldlM_nil, digit?_hexDigit, Option.map_some]
    rfl

/-! ## Words -/

theorem mem_hex {w : Word} {c : Char} (h : c ∈ w.hex) : c ∈ numeralChars := mem_hexDigits h

theorem mem_numeral {w : Word} {c : Char} (h : c ∈ w.numeral) : c ∈ numeralChars := by
  rcases List.mem_cons.mp h with rfl | h
  · decide
  rcases List.mem_cons.mp h with rfl | h
  · decide
  · exact mem_hex h

theorem isBlank_of_mem_numeral {w : Word} {c : Char} (h : c ∈ w.numeral) : isBlank c = false := by
  have all : ∀ c ∈ numeralChars, isBlank c = false := by decide
  exact all c (mem_numeral h)

theorem trimmed_numeral (w : Word) : Trimmed w.numeral := trimmed_of_forall fun _ => isBlank_of_mem_numeral

theorem isItem_numeral (w : Word) : IsItem w.numeral where
  ne_nil := by simp [Word.numeral]
  trimmed := trimmed_numeral w
  no_comma h := absurd (mem_numeral h) (by decide)
  no_quote h := absurd (mem_numeral h) (by decide)

theorem signed?_of_unsigned {radix : Nat} {t : Text} (unsigned : ∀ ds, t ≠ '-' :: ds ∧ t ≠ '+' :: ds) :
    Numeral.signed? radix t = ((Numeral.digits? radix t).map Int.ofNat).filter
      fun n => -0x8000000000000000 ≤ n && n < 0x8000000000000000 := by
  unfold Numeral.signed?
  split
  · next ds => exact absurd rfl (unsigned ds).1
  · next ds => exact absurd rfl (unsigned ds).2
  · rfl

/-- Digits without a sign in front are read as they are, if their value fits. -/
theorem signed?_of_digits {radix : Nat} {t : Text} {n : Nat} (unsigned : ∀ ds, t ≠ '-' :: ds ∧ t ≠ '+' :: ds)
    (digits : Numeral.digits? radix t = some n) (fits : n < 0x8000000000000000) :
    Numeral.signed? radix t = some (n : Int) := by
  rw [signed?_of_unsigned unsigned, digits, Option.map_some, Option.filter_some, if_pos]
  · rfl
  · simp only [Int.ofNat_eq_natCast, Bool.and_eq_true, decide_eq_true_eq]
    omega

theorem digits?_hex (w : Word) : Numeral.digits? 16 w.hex = some w.toNat := by
  have fold := foldlM_hexDigits 4 w.toNat 0
  rw [Nat.mod_eq_of_lt (show w.toNat < Nat.pow 16 4 from w.toNat_lt), Nat.zero_mul, Nat.zero_add] at fold
  rw [Numeral.digits?, if_neg (by simp [Word.hex, hexDigits])]
  exact fold

theorem signed?_hex (w : Word) : Numeral.signed? 16 w.hex = some (w.toNat : Int) := by
  have := w.toNat_lt
  -- a sign in front would be a digit
  have unsigned {c : Char} {ds : Text} (hc : c ∉ numeralChars) : w.hex ≠ c :: ds := fun h =>
    hc (mem_hex (h.symm ▸ List.mem_cons_self .. : c ∈ w.hex))
  exact signed?_of_digits (fun ds => ⟨unsigned (by decide), unsigned (by decide)⟩) (digits?_hex w) (by omega)

theorem number?_numeral (w : Word) : Numeral.number? w.numeral = some (some (w.toNat : Int)) :=
  congrArg some (signed?_hex w)

theorem ofInt_toNat (w : Word) : Word.ofInt w.toNat = w := by
  have := w.toNat_lt
  have := Word.toNat_ofInt w.toNat
  apply UInt16.toNat_inj.mp
  omega

theorem ofInt_neg (n : Int) : -Word.ofInt n = Word.ofInt (-n) := by
  have positive := Word.toNat_ofInt n
  have negative := Word.toNat_ofInt (-n)
  apply UInt16.toNat_inj.mp
  have size : UInt16.size = 0x10000 := rfl
  rw [UInt16.toNat_neg, size]
  omega

theorem ofInt_add (m n : Int) : Word.ofInt (m + n) = Word.ofInt m + Word.ofInt n := by
  have left := Word.toNat_ofInt m
  have right := Word.toNat_ofInt n
  have both := Word.toNat_ofInt (m + n)
  apply UInt16.toNat_inj.mp
  rw [UInt16.toNat_add]
  omega

/-- A trimmed text with a value that fits is read as a number. -/
theorem parse_of_number? {t : Text} {n : Int} (trimmed : Trimmed t) (h : Numeral.number? t = some (some n))
    (low : -0x8000 ≤ n) (high : n ≤ 0xffff) : Value.parse t = .ok (.number (.ofInt n)) := by
  have fits : (-0x8000 ≤ n && n ≤ 0xffff) = true := by
    simp only [Bool.and_eq_true, decide_eq_true_eq]
    exact ⟨low, high⟩
  simp only [Value.parse, trim_of_trimmed trimmed, h, fits, if_true]

/-- A trimmed text with the value of a word is read as the word. -/
theorem parse_of_word {t : Text} {w : Word} (trimmed : Trimmed t)
    (h : Numeral.number? t = some (some (w.toNat : Int))) : Value.parse t = .ok (.number w) := by
  have := w.toNat_lt
  rw [parse_of_number? trimmed h (by omega) (by omega), ofInt_toNat]

/-- A numeral is the value of its word. -/
theorem parse_numeral (w : Word) : Value.parse w.numeral = .ok (.number w) :=
  parse_of_word (trimmed_numeral w) (number?_numeral w)

/-! ## Decimal numerals -/

theorem digit?_of_isDigit {c : Char} (h : c.isDigit) : Numeral.digit? 10 c = some (c.toNat - '0'.toNat) := by
  have high : c.toNat ≤ 57 := by
    simp only [Char.isDigit, Bool.and_eq_true, decide_eq_true_eq, UInt32.le_iff_toNat_le, ge_iff_le] at h
    exact h.2
  have value : c.toNat - 48 < 10 := by omega
  simp only [Numeral.digit?, h, if_true]
  rw [if_pos value]
  rfl

theorem foldlM_of_isDigit {t : Text} (h : ∀ c ∈ t, c.isDigit) (acc : Nat) :
    t.foldlM (fun n c => (Numeral.digit? 10 c).map (n * 10 + ·)) acc = some (Nat.ofDigitChars 10 t acc) := by
  induction t generalizing acc with
  | nil => rfl
  | cons c cs ih =>
    rw [List.foldlM_cons, digit?_of_isDigit (h c (List.mem_cons_self ..)), Nat.ofDigitChars_cons, Nat.mul_comm]
    exact ih (fun d hd => h d (List.mem_cons_of_mem _ hd)) _

theorem decimal_ne_nil (n : Nat) : decimal n ≠ [] := Nat.toDigits_ne_nil

theorem isDigit_of_mem_decimal {n : Nat} {c : Char} (h : c ∈ decimal n) : c.isDigit :=
  Nat.isDigit_of_mem_toDigits (by decide) (by decide) h

theorem trimmed_decimal (n : Nat) : Trimmed (decimal n) := by
  apply trimmed_of_forall
  intro c hc
  have digit := isDigit_of_mem_decimal hc
  have low : 48 ≤ c.toNat ∧ c.toNat ≤ 57 := by simpa [Char.isDigit, UInt32.le_iff_toNat_le] using digit
  simp only [isBlank, Bool.or_eq_false_iff, Bool.and_eq_false_iff, decide_eq_false_iff_not, beq_eq_false_iff_ne]
  omega

/-- Digits alone are read as decimal: there is no mark of another radix. -/
theorem magnitude?_of_isDigit {t : Text} (visible : t ≠ []) (h : ∀ c ∈ t, c.isDigit) :
    Numeral.magnitude? t = Numeral.signed? 10 t := by
  obtain ⟨c, cs, rfl⟩ := List.exists_cons_of_ne_nil visible
  have first : c.isDigit := h c (List.mem_cons_self ..)
  have unmarked {d : Char} {ds : Text} (e : cs = d :: ds) : d.isDigit := h d (by simp [e])
  unfold Numeral.magnitude?
  split
  · next e => cases unmarked (List.cons.inj e).2
  · next e => cases unmarked (List.cons.inj e).2
  · next e => cases unmarked (List.cons.inj e).2
  · next e => cases unmarked (List.cons.inj e).2
  · next e =>
    cases e
    rw [if_pos first]
  · next e => cases e

/-- A number without a minus in front is its magnitude. -/
theorem number?_of_head {t : Text} (unsigned : t.head? ≠ some '-') :
    Numeral.number? t = some (Numeral.magnitude? t) := by
  unfold Numeral.number?
  split
  · exact absurd rfl unsigned
  · rfl

theorem number?_of_isDigit {t : Text} (visible : t ≠ []) (h : ∀ c ∈ t, c.isDigit) :
    Numeral.number? t = some (Numeral.signed? 10 t) := by
  have unsigned : t.head? ≠ some '-' := fun minus => by cases h _ (List.mem_of_mem_head? minus)
  rw [number?_of_head unsigned, magnitude?_of_isDigit visible h]

theorem number?_decimal (w : Word) : Numeral.number? (decimal w.toNat) = some (some (w.toNat : Int)) := by
  have bound := w.toNat_lt
  have digits : Numeral.digits? 10 (decimal w.toNat) = some w.toNat := by
    have fold := foldlM_of_isDigit (t := decimal w.toNat) (fun c => isDigit_of_mem_decimal) 0
    have value : Nat.ofDigitChars 10 (decimal w.toNat) 0 = w.toNat :=
      Nat.ofDigitChars_toDigits (by decide) (by decide)
    rw [value] at fold
    rw [Numeral.digits?, if_neg (by simp [decimal])]
    exact fold
  have unsigned {c : Char} {ds : Text} (hc : c.isDigit = false) : decimal w.toNat ≠ c :: ds := by
    intro e
    have digit : c.isDigit := isDigit_of_mem_decimal (e.symm ▸ List.mem_cons_self ..)
    rw [hc] at digit
    cases digit
  rw [number?_of_isDigit (decimal_ne_nil _) fun c => isDigit_of_mem_decimal]
  refine congrArg some ?_
  exact signed?_of_digits (fun ds => ⟨unsigned (by decide), unsigned (by decide)⟩) digits (by omega)

theorem parse_decimal (w : Word) : Value.parse (decimal w.toNat) = .ok (.number w) :=
  parse_of_word (trimmed_decimal w.toNat) (number?_decimal w)

end Dcpu16
