import Dcpu16.Word

/-!
# Assembly errors

Why a program text cannot be assembled: the cause, and the line that it stands in.
-/

namespace Dcpu16

/-- What is malformed in a line. -/
inductive Malformation
  | labelName (name : Text)
  | noData
  | unterminatedString
  /-- A backslash before a character that it does not escape, or before the end of the string. -/
  | escape (c : Option Char)
  /-- ORG with a label in place of a number. -/
  | labelAsOrigin
  | originBehind (target current : Word)
  | operandCount (mnemonic : String) (expected found : Nat)
  | pushAsSource (operand : Text)
  | popAsDestination (operand : Text)
  | notAValue (found : Text)
  /-- What stands in the brackets of an operand. -/
  | memoryOperand (inner : Text)
  deriving DecidableEq, Repr

/-- How a malformed line is reported. -/
def Malformation.message : Malformation → String
  | labelName name => "invalid label name " ++ quote name
  | noData => "DAT requires at least one value"
  | unterminatedString => "unterminated string"
  | escape c => "invalid escape " ++ quote ('\\' :: c.toList)
  | labelAsOrigin => "ORG requires a numeric address"
  | originBehind target current =>
    "ORG " ++ String.ofList target.numeral ++ " is behind the current address " ++ String.ofList current.numeral
  | operandCount mnemonic expected found => s!"{mnemonic} takes {expected} operand(s), found {found}"
  | pushAsSource operand => "PUSH is only valid as a destination: " ++ quote operand
  | popAsDestination operand => "POP is only valid as a source: " ++ quote operand
  | notAValue found => "expected a number or label, found " ++ quote found
  | memoryOperand inner => "invalid memory operand " ++ quote ('[' :: inner ++ [']'])
where
  quote (t : Text) : String := "`" ++ String.ofList t ++ "`"

/-- What is wrong in a line. -/
inductive Problem
  | malformed (m : Malformation)
  | unknownMnemonic (name : Text)
  | undefinedLabel (name : Text)
  | duplicateLabel (name : Text)
  | outOfRange (v : Int)
  /-- The end of the program, since a number has left its type. -/
  | overflow
  deriving DecidableEq, Repr

/-- Why a program text cannot be assembled. -/
inductive AssemblyError
  | inLine (line : Nat) (p : Problem)
  | tooLarge (size : Nat)
  deriving DecidableEq, Repr

/-- The kinds of assembly errors. -/
inductive AssemblyError.Kind
  | malformed | unknownMnemonic | undefinedLabel | duplicateLabel | outOfRange | tooLarge | overflow
  deriving DecidableEq, Repr

namespace AssemblyError

/-- The kind of an assembly error. -/
def kind : AssemblyError → Kind
  | inLine _ (.malformed _) => .malformed
  | inLine _ (.unknownMnemonic _) => .unknownMnemonic
  | inLine _ (.undefinedLabel _) => .undefinedLabel
  | inLine _ (.duplicateLabel _) => .duplicateLabel
  | inLine _ (.outOfRange _) => .outOfRange
  | inLine _ .overflow => .overflow
  | tooLarge _ => .tooLarge

/-- How an assembly error is reported. -/
def message : AssemblyError → String
  | inLine line (.malformed m) => s!"syntax error on line {line}: " ++ m.message
  | inLine line (.unknownMnemonic name) => s!"unknown mnemonic on line {line}: " ++ String.ofList name
  | inLine line (.undefinedLabel name) => s!"undefined label on line {line}: " ++ String.ofList name
  | inLine line (.duplicateLabel name) => s!"label defined twice on line {line}: " ++ String.ofList name
  | inLine line (.outOfRange v) => s!"value out of range on line {line}: {v}"
  | inLine _ .overflow => "attempt to negate with overflow"
  | tooLarge size => s!"program of {size} words does not fit in memory"

end AssemblyError

end Dcpu16
