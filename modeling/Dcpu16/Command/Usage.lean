import Dcpu16.Assembly.Value
import Dcpu16.Text.Similarity
import Dcpu16.Text.Visible

/-!
# Usages

What the arguments of a command may be: options with their values, and paths. What is wrong with arguments
that are refused, and how it is reported.
-/

namespace Dcpu16

/-! ## Values -/

/-- The digits of a natural number, which may have a plus in front. -/
def naturalDigits : Text → Text
  | '+' :: ds => ds
  | ds => ds

/-- The value of a natural number of up to 64 bits. -/
def natural64? (t : Text) : Option Nat := (Numeral.digits? 10 (naturalDigits t)).filter (· < 0x10000000000000000)

/-- What a value has to be. -/
inductive ValueKind
  /-- A path, which is not empty. -/
  | path
  /-- A natural number of up to 64 bits. -/
  | natural64
  deriving DecidableEq, Repr

/-- Whether a text is a value of a kind. -/
def ValueKind.admits : ValueKind → Text → Bool
  | path, t => !t.isEmpty
  | natural64, t => (natural64? t).isSome

/-! ## Forms -/

/-- An option that a command knows. -/
structure OptionForm where
  long : String
  short : Option Char := none
  /-- The kind of its value, if it takes one. -/
  kind : Option ValueKind := none
  deriving DecidableEq, Repr

namespace OptionForm

/-- The form of an option whose letter is the first one of its name. -/
def flag (long : String) : OptionForm := { long, short := long.toList.head? }

/-- The form of an option with a value. -/
def valued (long : String) (kind : ValueKind) : OptionForm := { flag long with kind := some kind }

/-- An option as reports name it, with a name for its value. -/
def shown (form : OptionForm) : String :=
  let valueName := String.ofList (form.long.toList.map fun c => if c = '-' then '_' else c.toUpper)
  "--" ++ form.long ++ if form.kind.isSome then " <" ++ valueName ++ ">" else ""

end OptionForm

/-- The arguments that a command knows. -/
structure Usage where
  options : List OptionForm := []
  /-- The names of the paths that it needs. -/
  paths : List String := []
  deriving DecidableEq, Repr

/-! ## Refusals -/

/-- What is wrong with arguments. -/
inductive Misuse
  | unknownCommand (name : Text)
  /-- No option has this name; `maybePath` if it might be meant as a path. -/
  | unknownOption (arg : Text) (maybePath : Bool)
  /-- No more paths are needed. -/
  | surplusPath (path : Text)
  | missingPath (name : String)
  | emptyPath (name : String)
  | repeatedOption (form : OptionForm)
  | missingValue (form : OptionForm)
  | unwantedValue (form : OptionForm) (value : Text)
  | badValue (form : OptionForm) (value : Text)
  deriving DecidableEq, Repr

namespace Misuse

/-- How a text that is no natural number of up to 64 bits is reported. -/
def naturalReason (t : Text) : String :=
  let leading := (naturalDigits t).takeWhile Char.isDigit
  if t.isEmpty then "cannot parse integer from empty string"
  else if leading.isEmpty || (natural64? leading).isSome then "invalid digit found in string"
  else "number too large to fit in target type"

/-- How a misuse is reported. Of the arguments in it only what is visible is shown. -/
def message : Misuse → String
  | unknownCommand name => "unrecognized subcommand " ++ quote name
  | unknownOption arg maybePath =>
    "unexpected argument " ++ quote arg ++ " found" ++
      if maybePath then
        "\n\n  tip: to pass " ++ quote arg ++ " as a value, use " ++ quote (['-', '-', ' '] ++ arg)
      else ""
  | surplusPath path => "unexpected argument " ++ quote path ++ " found"
  | missingPath name => "the following required arguments were not provided:\n  <" ++ name ++ ">"
  | emptyPath name => required ("<" ++ name ++ ">")
  | repeatedOption form => "the argument '" ++ form.shown ++ "' cannot be used multiple times"
  | missingValue form => required form.shown
  | unwantedValue form value =>
    "unexpected value " ++ quote value ++ " for '" ++ form.shown ++ "' found; no more were expected"
  | badValue form value =>
    if form.kind = some .path then required form.shown
    else "invalid value " ++ quote value ++ " for '" ++ form.shown ++ "': " ++ naturalReason value
where
  quote (t : Text) : String := "'" ++ String.ofList (visible t) ++ "'"
  required (name : String) : String := "a value is required for '" ++ name ++ "' but none was supplied"

end Misuse

/-- Why arguments are not carried out. -/
inductive Refusal
  | misused (why : Misuse)
  | help
  deriving DecidableEq, Repr

end Dcpu16
