import Dcpu16.Instruction

/-!
# Arithmetic of the basic operations

What a basic operation computes from the values of its operands and of EX. Sums, products, quotients
and shifts are exact numbers first; the low word is stored and the excess goes to EX.
-/

namespace Dcpu16

/-- What a basic operation asks for once its operands are read. -/
inductive Effect
  /-- Store a value in the destination. -/
  | store (v : Word)
  /-- Store a value, then set EX. -/
  | storeEx (v ex : Word)
  /-- Store a value, then add a step to I and J. -/
  | storeStep (v step : Word)
  /-- Go on if the test holds, else skip. -/
  | test (holds : Bool)
  deriving DecidableEq, Repr

namespace Effect

/-- The low word of a number to the destination, the next higher word to EX. -/
def carry (n : Int) : Effect := .storeEx (.ofInt n) (.ofInt (n / 0x10000))

/-- The fraction below one to EX, the whole part to the destination; `n` counts `2 ^ 16`-ths. -/
def fraction (n : Int) : Effect := .storeEx (.ofInt (n / 0x10000)) (.ofInt n)

end Effect

/-- The effect of an operation on the destination value `b` and the source value `a`. Dividing by
zero gives zero. -/
def BasicOp.effect (op : BasicOp) (b a ex : Word) : Effect :=
  match op with
  | set => .store a
  | add => .carry (b.toNat + a.toNat)
  | sub => .storeEx (b - a) (if b < a then 0xffff else 0)
  | mul => .carry (b.toNat * a.toNat)
  | mli => .carry (b.signed * a.signed)
  | div => if a = 0 then .storeEx 0 0 else .fraction (b.toNat * 0x10000 / a.toNat)
  | dvi =>
    if a = 0 then .storeEx 0 0
    else .storeEx (.ofInt (b.signed.tdiv a.signed)) (.ofInt ((b.signed * 0x10000).tdiv a.signed))
  | mod => .store (if a = 0 then 0 else b % a)
  | mdi => .store (if a = 0 then 0 else .ofInt (b.signed.tmod a.signed))
  | and => .store (b &&& a)
  | bor => .store (b ||| a)
  | xor => .store (b ^^^ a)
  | shr => .fraction ((b.toNat * 0x10000) >>> a.toNat)
  | asr => .fraction ((b.signed * 0x10000) >>> a.toNat)
  | shl => .carry (b.toNat <<< a.toNat)
  | ifb => .test (b &&& a ≠ 0)
  | ifc => .test (b &&& a = 0)
  | ife => .test (b = a)
  | ifn => .test (b ≠ a)
  | ifg => .test (a < b)
  | ifa => .test (a.signed < b.signed)
  | ifl => .test (b < a)
  | ifu => .test (b.signed < a.signed)
  | adx =>
    let sum := b.toNat + a.toNat + ex.toNat
    .storeEx (UInt16.ofNat sum) (if 0xffff < sum then 1 else 0)
  | sbx =>
    let diff : Int := b.toNat - a.toNat + ex.toNat
    .storeEx (.ofInt diff) (if diff < 0 then 0xffff else if 0xffff < diff then 1 else 0)
  | sti => .storeStep a 1
  | std => .storeStep a 0xffff

/-- Whether an effect is a test. -/
def Effect.isTest : Effect → Bool
  | .test _ => true
  | _ => false

/-- The conditional operations are those whose effect is a test, whatever the values are. -/
theorem BasicOp.isTest_effect (op : BasicOp) (b a ex : Word) : (op.effect b a ex).isTest = op.isConditional := by
  by_cases h : a = 0 <;> cases op <;> simp [isConditional, effect, Effect.carry, Effect.fraction, Effect.isTest, h]

end Dcpu16
