import Dcpu16.Proofs.Assembly.Names
import Dcpu16.Proofs.Assembly.Numerals
import Dcpu16.Proofs.Width
import Mathlib.Data.Nat.Digits.Defs

/-!
# Numbers that numerals denote

What an unsigned numeral denotes is said without the assembler: the number that its digits have in the positional
system of the radix that its first characters tell (`Denotes`). The assembler reads a numeral as this number, and with
a minus in front as its negative (`parse_of_denotes`, `parse_minus_of_denotes`).
-/

namespace Dcpu16

namespace Numeral

/-! ## Digits -/

/-- The characters of digits, in the order of their values. -/
def digitChars : Text := ['0', '1', '2', '3', '4', '5', '6', '7', '8', '9', 'a', 'b', 'c', 'd', 'e', 'f']

/-- The value of a digit in either case. Characters that are no digits are above them all. -/
def digitValue (c : Char) : Nat := digitChars.idxOf c.toLower

theorem toNat_lt_of_digitValue {c : Char} (h : digitValue c < 16) : c.toNat < 0x80 := by
  have ascii : ∀ d ∈ digitChars, d.toNat < 0x80 := by decide
  have digit : c.toLower.toNat < 0x80 := ascii _ (List.idxOf_lt_length_iff.mp h)
  -- only ASCII letters have another lower-case form
  unfold Char.toLower at digit
  split at digit
  · next letter => exact Nat.lt_of_le_of_lt (UInt32.le_iff_toNat_le.mp letter.2) (by decide)
  · exact digit

theorem digit?_sixteen (c : Char) : digit? 16 c = if digitValue c < 16 then some (digitValue c) else none := by
  by_cases ascii : c.toNat < 0x80
  · exact forall_ascii (p := fun c => digit? 16 c = if digitValue c < 16 then some (digitValue c) else none)
      (by decide +kernel) ascii
  · have decimal : c.isDigit = false := Bool.eq_false_iff.mpr fun h => ascii (toNat_lt_of_isDigit h)
    have letter : (0x61 ≤ c.toNat && c.toNat ≤ 0x66) = false ∧ (0x41 ≤ c.toNat && c.toNat ≤ 0x46) = false := by
      simp only [Bool.and_eq_false_iff, decide_eq_false_iff_not]
      omega
    rw [if_neg fun h => ascii (toNat_lt_of_digitValue h)]
    simp [digit?, decimal, letter]

/-- The digits of a radix are the characters whose value is below it. -/
theorem digit?_eq {radix : Nat} (h : radix ≤ 16) (c : Char) :
    digit? radix c = if digitValue c < radix then some (digitValue c) else none := by
  have smaller : digit? radix c = (digit? 16 c).filter (· < radix) := by
    simp only [digit?]
    generalize (if c.isDigit then _ else _ : Nat) = d
    by_cases hd : d < radix
    · rw [if_pos hd, if_pos (by omega), Option.filter_some, if_pos (decide_eq_true hd)]
    · rw [if_neg hd]
      split
      · rw [Option.filter_some, if_neg (by simpa using hd)]
      · rfl
  rw [smaller, digit?_sixteen]
  by_cases hc : digitValue c < 16
  · simp [hc, Option.filter_some]
  · have above : ¬ digitValue c < radix := by omega
    simp [hc, above]

/-- One or more digits of a radix. -/
def Digits (radix : Nat) (t : Text) : Prop := t ≠ [] ∧ ∀ c ∈ t, digitValue c < radix

instance (radix : Nat) (t : Text) : Decidable (Digits radix t) := by unfold Digits; infer_instance

/-- The number that digits stand for; the last one counts once. -/
def positional (radix : Nat) (t : Text) : Nat := Nat.ofDigits radix (t.map digitValue).reverse

theorem positional_cons (radix : Nat) (c : Char) (cs : Text) :
    positional radix (c :: cs) = digitValue c * Nat.pow radix cs.length + positional radix cs := by
  unfold positional
  rw [List.map_cons, List.reverse_cons, Nat.ofDigits_append, Nat.ofDigits_singleton, List.length_reverse,
    List.length_map, Nat.add_comm, Nat.mul_comm]
  rfl

/-- Reading digits behind a number `acc` shifts it and adds the number that they stand for. -/
theorem foldlM_of_digits {radix : Nat} (h : radix ≤ 16) {t : Text} (ht : ∀ c ∈ t, digitValue c < radix) (acc : Nat) :
    t.foldlM (fun n c => (digit? radix c).map (n * radix + ·)) acc =
      some (acc * Nat.pow radix t.length + positional radix t) := by
  induction t generalizing acc with
  | nil =>
    rw [List.length_nil, Nat.pow_eq, Nat.pow_zero, Nat.mul_one]
    rfl
  | cons c cs ih =>
    have shift : (acc * radix + digitValue c) * Nat.pow radix cs.length + positional radix cs =
        acc * Nat.pow radix (c :: cs).length + positional radix (c :: cs) := by
      have power : Nat.pow radix (c :: cs).length = radix * Nat.pow radix cs.length := Nat.pow_succ'
      rw [positional_cons, power, Nat.add_mul, Nat.mul_assoc, Nat.add_assoc]
    rw [List.foldlM_cons, digit?_eq h, if_pos (ht c (List.mem_cons_self ..)), ← shift]
    exact ih (fun d hd => ht d (List.mem_cons_of_mem _ hd)) _

theorem digits?_of_digits {radix : Nat} (h : radix ≤ 16) {t : Text} (ht : Digits radix t) :
    digits? radix t = some (positional radix t) := by
  rw [digits?, if_neg (by simpa using ht.1), foldlM_of_digits h ht.2, Nat.zero_mul, Nat.zero_add]

/-- Digits are read as the number that they stand for, if it fits. -/
theorem signed?_of_positional {radix : Nat} (h : radix ≤ 16) {t : Text} (ht : Digits radix t)
    (fits : positional radix t < 0x8000000000000000) : signed? radix t = some (positional radix t : Int) := by
  have unsigned {c : Char} (hc : digitValue c = 16) (ds : Text) : t ≠ c :: ds := by
    rintro rfl
    have := ht.2 c (List.mem_cons_self ..)
    omega
  exact signed?_of_digits (fun ds => ⟨unsigned (by decide) ds, unsigned (by decide) ds⟩) (digits?_of_digits h ht) fits

/-! ## Numerals -/

/-- **The number that an unsigned numeral denotes.** It is decimal unless it has the mark of another radix. -/
inductive Denotes : Text → Nat → Prop
  | decimal {ds : Text} (h : Digits 10 ds) : Denotes ds (positional 10 ds)
  | hexadecimal {mark : Char} {ds : Text} (hm : mark = 'x' ∨ mark = 'X') (h : Digits 16 ds) :
    Denotes ('0' :: mark :: ds) (positional 16 ds)
  | binary {mark : Char} {ds : Text} (hm : mark = 'b' ∨ mark = 'B') (h : Digits 2 ds) :
    Denotes ('0' :: mark :: ds) (positional 2 ds)

theorem isDigit_of_digitValue {c : Char} (h : digitValue c < 10) : c.isDigit :=
  forall_ascii (p := fun c => digitValue c < 10 → c.isDigit) (by decide +kernel) (toNat_lt_of_digitValue (by omega)) h

theorem isNameChar_of_digitValue {c : Char} (h : digitValue c < 16) : isNameStart c || c.isDigit :=
  forall_ascii (p := fun c => digitValue c < 16 → isNameStart c || c.isDigit) (by decide +kernel)
    (toNat_lt_of_digitValue h) h

section Denotes
variable {t : Text} {n : Nat}

/-- A numeral starts with a digit. -/
theorem Denotes.eq_cons (h : Denotes t n) : ∃ c cs, t = c :: cs ∧ c.isDigit := by
  cases h with
  | decimal h =>
    obtain ⟨c, cs, rfl⟩ := List.exists_cons_of_ne_nil h.1
    exact ⟨c, cs, rfl, isDigit_of_digitValue (h.2 c (List.mem_cons_self ..))⟩
  | hexadecimal _ _ | binary _ _ => exact ⟨_, _, rfl, rfl⟩

/-- A numeral is a word. -/
theorem Denotes.isWord (h : Denotes t n) : IsWord t where
  ne_nil := by
    obtain ⟨c, cs, rfl, -⟩ := h.eq_cons
    exact List.cons_ne_nil _ _
  chars := by
    cases h with
    | decimal h => exact fun c hc => isNameChar_of_digitValue (Nat.lt_trans (h.2 c hc) (by decide))
    | hexadecimal hm h =>
      have digits := fun c hc => isNameChar_of_digitValue (h.2 c hc)
      rcases hm with rfl | rfl <;> exact List.forall_mem_cons.mpr ⟨rfl, List.forall_mem_cons.mpr ⟨rfl, digits⟩⟩
    | binary hm h =>
      have digits := fun c hc => isNameChar_of_digitValue (Nat.lt_trans (h.2 c hc) (by decide))
      rcases hm with rfl | rfl <;> exact List.forall_mem_cons.mpr ⟨rfl, List.forall_mem_cons.mpr ⟨rfl, digits⟩⟩

/-- A numeral is read as the number that it denotes, if it fits. -/
theorem magnitude?_of_denotes (h : Denotes t n) (fits : n < 0x8000000000000000) : magnitude? t = some (n : Int) := by
  cases h with
  | decimal h =>
    exact (magnitude?_of_isDigit h.1 fun c hc => isDigit_of_digitValue (h.2 c hc)).trans
      (signed?_of_positional (by decide) h fits)
  | hexadecimal hm h => rcases hm with rfl | rfl <;> exact signed?_of_positional (by decide) h fits
  | binary hm h => rcases hm with rfl | rfl <;> exact signed?_of_positional (by decide) h fits

theorem number?_of_denotes (h : Denotes t n) (fits : n < 0x8000000000000000) :
    number? t = some (some (n : Int)) := by
  have unsigned : t.head? ≠ some '-' := fun minus => h.isWord.unsigned.2 (List.mem_of_mem_head? minus)
  rw [number?_of_head unsigned, magnitude?_of_denotes h fits]

/-- With a minus in front, and maybe blanks behind it, a numeral is read as the negative. -/
theorem number?_minus_of_denotes (h : Denotes t n) (fits : n < 0x8000000000000000) {gap : Text} (hg : Blank gap) :
    number? ('-' :: (gap ++ t)) = some (some (-n : Int)) := by
  have negative : Width.signed 64 (-n) = some (-n : Int) := Width.signed_eq (by omega)
  simp only [number?, h.isWord.trimLeft_append hg, magnitude?_of_denotes h fits, negative, Option.map_some]

theorem parse_of_denotes (h : Denotes t n) (small : n ≤ 0x8000) : Value.parse t = .ok (.number (.ofInt n)) :=
  parse_of_number? h.isWord.trimmed (number?_of_denotes h (by omega)) (by omega) (by omega)

theorem parse_minus_of_denotes (h : Denotes t n) (small : n ≤ 0x8000) {gap : Text} (hg : Blank gap) :
    Value.parse ('-' :: (gap ++ t)) = .ok (.number (.ofInt (-n))) :=
  parse_of_number? (h.isWord.trimmed_minus gap) (number?_minus_of_denotes h (by omega) hg) (by omega) (by omega)

end Denotes

end Numeral

end Dcpu16
