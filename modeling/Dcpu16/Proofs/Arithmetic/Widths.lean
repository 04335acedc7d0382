import Dcpu16.Proofs.Arithmetic.Results
import Dcpu16.Proofs.Width

/-!
# Arithmetic in integer types

The machine is to be run with integers that have so many bits, a sign or none, and that are shifted by less than their
number of bits. The operations are given here with their intermediate numbers in the types that are meant for them, and
with nothing as the result where one leaves its type. None does: there is always the exact result
(`BasicOp.effectIn_eq`).
-/

namespace Dcpu16

open Width

namespace BasicOp

/-- The effect of an operation in integer types, if no number leaves its type. -/
def effectIn (op : BasicOp) (b a ex : Word) : Checked Effect :=
  match op with
  | add => do
    let sum ← unsigned 32 (b.toNat + a.toNat)
    return .carry sum
  | mul => do
    let product ← unsigned 32 (b.toNat * a.toNat)
    return .carry product
  | mli => do
    let product ← Width.signed 32 (b.signed * a.signed)
    return .carry product
  | div =>
    if a = 0 then return .storeEx 0 0
    else do
      let wide ← unsigned 32 (b.toNat * 0x10000)
      return .storeEx (b / a) (.ofInt (wide / a.toNat : Nat))
  | dvi =>
    if a = 0 then return .storeEx 0 0
    else do
      let quotient ← Width.signed 64 (b.signed.tdiv a.signed)
      let wide ← Width.signed 64 (b.signed * 0x10000)
      let excess ← Width.signed 64 (wide.tdiv a.signed)
      return .storeEx (.ofInt quotient) (.ofInt excess)
  | shr => do
    let wide ← unsigned 64 (b.toNat * 0x10000)
    if a.toNat < 48 then
      let amount ← shift 64 a.toNat
      return .fraction (wide >>> amount : Nat)
    else return .fraction 0
  | asr => do
    let wide ← Width.signed 64 (b.signed * 0x10000)
    let amount ← shift 64 (min a.toNat 63)
    return .fraction (wide >>> amount)
  | shl =>
    if a.toNat < 32 then do
      let amount ← shift 64 a.toNat
      let shifted ← unsigned 64 (b.toNat <<< amount)
      return .carry shifted
    else return .carry 0
  | adx => do
    let sum ← unsigned 32 (b.toNat + a.toNat)
    let sum ← unsigned 32 (sum + ex.toNat)
    return .storeEx (UInt16.ofNat sum) (if 0xffff < sum then 1 else 0)
  | sbx => do
    let diff ← Width.signed 32 (b.toNat - a.toNat)
    let diff ← Width.signed 32 (diff + ex.toNat)
    return .storeEx (.ofInt diff) (if diff < 0 then 0xffff else if 0xffff < diff then 1 else 0)
  -- the others only compare words, or have arithmetic that wraps
  | _ => op.effect b a ex

/-! ## No number leaves its type -/

section
variable {b a ex : Word}

theorem natAbs_signed (w : Word) : w.signed.natAbs ≤ 0x8000 := by
  have := Word.signed_bounds w
  omega

theorem effectIn_mli : mli.effectIn b a ex = some (mli.effect b a ex) := by
  have product := Nat.mul_le_mul (natAbs_signed b) (natAbs_signed a)
  rw [← Int.natAbs_mul] at product
  rw [effectIn, signed_eq (by omega)]
  rfl

/-- The whole part of a quotient with a fraction is the quotient without one. -/
theorem div_fraction (b a : Word) : b.toNat * 0x10000 / a.toNat / 0x10000 = b.toNat / a.toNat := by
  rw [Nat.div_div_eq_div_mul, Nat.mul_comm a.toNat, ← Nat.div_div_eq_div_mul, Nat.mul_div_cancel _ (by decide)]

theorem ofInt_div_fraction {n : Nat} (w : Word) (h : n / 0x10000 = w.toNat) : Word.ofInt (n / 0x10000) = w := by
  apply UInt16.toNat_inj.mp
  have := Word.toNat_ofInt (n / 0x10000)
  have := w.toNat_lt
  omega

theorem effectIn_div (nonzero : a ≠ 0) : div.effectIn b a ex = some (div.effect b a ex) := by
  have := b.toNat_lt
  have whole := ofInt_div_fraction (b / a) ((div_fraction b a).trans (UInt16.toNat_div ..).symm)
  rw [effectIn, if_neg nonzero, unsigned_eq (by omega), effect, if_neg nonzero, Effect.fraction]
  exact congrArg (fun v => some (Effect.storeEx v _)) whole.symm

theorem effectIn_dvi (nonzero : a ≠ 0) : dvi.effectIn b a ex = some (dvi.effect b a ex) := by
  have bound := natAbs_signed b
  have wide : (b.signed * 0x10000).natAbs ≤ 2 ^ 31 := by
    rw [Int.natAbs_mul]
    exact Nat.mul_le_mul_right _ bound
  have quotient := Int.natAbs_tdiv_le_natAbs b.signed a.signed
  have excess := Int.natAbs_tdiv_le_natAbs (b.signed * 0x10000) a.signed
  rw [effectIn, if_neg nonzero, signed_eq (by omega), signed_eq (by omega), effect, if_neg nonzero]
  simp only [bind, Option.bind_some]
  rw [signed_eq (by omega)]
  rfl

theorem effectIn_shr : shr.effectIn b a ex = some (shr.effect b a ex) := by
  have bound := b.toNat_lt
  rw [effectIn, unsigned_eq (by omega)]
  simp only [bind, Option.bind_some]
  split
  · next few =>
    rw [shift_eq (by omega)]
    rfl
  · next many =>
    have none_left : (b.toNat * 0x10000) >>> a.toNat = 0 := by
      rw [Nat.shiftRight_eq_div_pow, Nat.div_eq_of_lt]
      have := Nat.pow_le_pow_right (n := 2) (by decide) (Nat.le_of_not_lt many)
      omega
    rw [effect, none_left]
    rfl

/-- A number of 64 bits has only its sign left once it is shifted by 63 bits. -/
theorem shiftRight_of_sign {n : Int} (h : n.natAbs < 2 ^ 63) {k : Nat} (hk : 63 ≤ k) : n >>> k = n >>> (63 : Nat) := by
  have power := Nat.pow_le_pow_right (n := 2) (by decide) hk
  rw [Int.shiftRight_eq_div_pow, Int.shiftRight_eq_div_pow]
  rcases Int.lt_or_le n 0 with negative | positive
  · rw [Int.ediv_eq_neg_one_of_neg_of_le negative (by omega), Int.ediv_eq_neg_one_of_neg_of_le negative (by omega)]
  · rw [Int.ediv_eq_zero_of_lt positive (by omega), Int.ediv_eq_zero_of_lt positive (by omega)]

theorem effectIn_asr : asr.effectIn b a ex = some (asr.effect b a ex) := by
  have wide : (b.signed * 0x10000).natAbs ≤ 2 ^ 31 := by
    rw [Int.natAbs_mul]
    exact Nat.mul_le_mul_right _ (natAbs_signed b)
  have shifted : (b.signed * 0x10000) >>> min a.toNat 63 = (b.signed * 0x10000) >>> a.toNat := by
    rcases Nat.le_total a.toNat 63 with few | many
    · rw [Nat.min_eq_left few]
    · rw [Nat.min_eq_right many, shiftRight_of_sign (by omega) many]
  rw [effectIn, signed_eq (by omega), shift_eq (by omega), effect, ← shifted]
  rfl

/-- A number that is shifted by two words leaves nothing in them. -/
theorem carry_of_high (n : Nat) : Effect.carry (n * 2 ^ 32 : Nat) = .carry 0 := by
  have low : Word.ofInt (n * 2 ^ 32 : Nat) = 0 := by
    apply UInt16.toNat_inj.mp
    have := Word.toNat_ofInt (n * 2 ^ 32 : Nat)
    show _ = 0
    omega
  have high : Word.ofInt ((n * 2 ^ 32 : Nat) / 0x10000) = 0 := by
    apply UInt16.toNat_inj.mp
    have := Word.toNat_ofInt ((n * 2 ^ 32 : Nat) / 0x10000)
    show _ = 0
    omega
  rw [Effect.carry, low, high]
  rfl

theorem effectIn_shl : shl.effectIn b a ex = some (shl.effect b a ex) := by
  rw [effectIn, effect]
  split
  · next few =>
    have bound : b.toNat <<< a.toNat < 2 ^ 64 := by
      rw [Nat.shiftLeft_eq]
      calc
        b.toNat * 2 ^ a.toNat < 2 ^ 16 * 2 ^ a.toNat := Nat.mul_lt_mul_of_pos_right b.toNat_lt (Nat.two_pow_pos _)
        _ ≤ 2 ^ 16 * 2 ^ 32 := Nat.mul_le_mul_left _ (Nat.pow_le_pow_right (by decide) (by omega))
        _ ≤ 2 ^ 64 := by decide
    rw [shift_eq (by omega)]
    simp only [bind, Option.bind_some]
    rw [unsigned_eq bound]
    rfl
  · next many =>
    have parts : b.toNat <<< a.toNat = b.toNat * 2 ^ (a.toNat - 32) * 2 ^ 32 := by
      rw [Nat.shiftLeft_eq, Nat.mul_assoc, ← Nat.pow_add, Nat.sub_add_cancel (by omega)]
    rw [parts, carry_of_high]
    rfl

theorem effectIn_sbx : sbx.effectIn b a ex = some (sbx.effect b a ex) := by
  have := b.toNat_lt
  have := a.toNat_lt
  have := ex.toNat_lt
  rw [effectIn, signed_eq (by omega)]
  simp only [bind, Option.bind_some]
  rw [signed_eq (by omega)]
  rfl

theorem effectIn_adx : adx.effectIn b a ex = some (adx.effect b a ex) := by
  have := b.toNat_lt
  have := a.toNat_lt
  have := ex.toNat_lt
  rw [effectIn, unsigned_eq (by omega)]
  simp only [bind, Option.bind_some]
  rw [unsigned_eq (by omega)]
  rfl

/-- **No number of a basic operation leaves its type**, and no shift is by too many bits, whatever the operands are. -/
theorem effectIn_eq (op : BasicOp) (b a ex : Word) : op.effectIn b a ex = some (op.effect b a ex) := by
  have := b.toNat_lt
  have := a.toNat_lt
  cases op with
  | add =>
    rw [effectIn, unsigned_eq (by omega)]
    rfl
  | mul =>
    rw [effectIn, unsigned_eq (Word.mul_lt b a)]
    rfl
  | div =>
    by_cases zero : a = 0
    · rw [effectIn, effect, if_pos zero, if_pos zero]
      rfl
    · exact effectIn_div zero
  | dvi =>
    by_cases zero : a = 0
    · rw [effectIn, effect, if_pos zero, if_pos zero]
      rfl
    · exact effectIn_dvi zero
  | mli => exact effectIn_mli
  | shr => exact effectIn_shr
  | asr => exact effectIn_asr
  | shl => exact effectIn_shl
  | adx => exact effectIn_adx
  | sbx => exact effectIn_sbx
  | _ => rfl

end

end BasicOp

end Dcpu16
