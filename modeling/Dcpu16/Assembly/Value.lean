import Dcpu16.Assembly.Error
import Dcpu16.Text.Blank
import Dcpu16.Width

/-!
# Values

A value in a program text is a number or a label. Numbers are hexadecimal after `0x`, binary after
`0b` and otherwise decimal, with an optional minus in front.
-/

namespace Dcpu16

/-! ## Numbers -/

namespace Numeral

/-- The value of a character as a digit of a radix up to sixteen. -/
def digit? (radix : Nat) (c : Char) : Option Nat :=
  let n := c.toNat
  let d :=
    if c.isDigit then n - 0x30
    else if 0x61 ≤ n && n ≤ 0x66 then n - 0x57
    else if 0x41 ≤ n && n ≤ 0x46 then n - 0x37
    else 16
  if d < radix then some d else none

/-- The value of one or more digits. -/
def digits? (radix : Nat) (t : Text) : Option Nat :=
  if t.isEmpty then none else t.foldlM (fun n c => (digit? radix c).map (n * radix + ·)) 0

/-- The value of digits with an optional sign in front, if it fits into 64 bits. -/
def signed? (radix : Nat) (t : Text) : Option Int :=
  let n : Option Int :=
    match t with
    | '-' :: ds => (digits? radix ds).map fun n => -(n : Int)
    | '+' :: ds => (digits? radix ds).map Int.ofNat
    | ds => (digits? radix ds).map Int.ofNat
  n.filter fun n => -0x8000000000000000 ≤ n && n < 0x8000000000000000

/-- The value of a number without the minus in front. -/
def magnitude? : Text → Option Int
  | '0' :: 'x' :: ds | '0' :: 'X' :: ds => signed? 16 ds
  | '0' :: 'b' :: ds | '0' :: 'B' :: ds => signed? 2 ds
  | c :: ds => if c.isDigit then signed? 10 (c :: ds) else none
  | [] => none

/-- The value of a number, if the text is one. Blanks may follow the minus, which negates in 64 bits. -/
def number? : Text → Checked (Option Int)
  | '-' :: rest =>
    match magnitude? (trimLeft rest) with
    | some n => (Width.signed 64 (-n)).map some
    | none => some none
  | t => some (magnitude? t)

end Numeral

/-! ## Labels and values -/

/-- Whether a character can start a name. -/
def isNameStart (c : Char) : Bool := c.isAlpha || c == '_' || c == '.'

/-- Whether a text can name a label: a letter, underscore or point, then these and digits. -/
def isName : Text → Bool
  | [] => false
  | c :: cs => isNameStart c && cs.all fun c => isNameStart c || c.isDigit

/-- A number, or the label whose address is meant. -/
inductive Value
  | number (w : Word)
  | label (name : Text)
  deriving DecidableEq, Repr

/-- Reads a value. Numbers may be signed or unsigned words. -/
def Value.parse (t : Text) : Except Problem Value :=
  let t := trim t
  match Numeral.number? t with
  | none => .error .overflow
  | some (some n) => if -0x8000 ≤ n && n ≤ 0xffff then .ok (.number (.ofInt n)) else .error (.outOfRange n)
  | some none => if isName t then .ok (.label t) else .error (.malformed (.notAValue t))

end Dcpu16
