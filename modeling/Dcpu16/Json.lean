import Dcpu16.Word

/-!
# JSON

JSON values with whole numbers and ordered members, and their two written forms: without blanks, and with
one item a line.
-/

namespace Dcpu16

/-- A JSON value. -/
inductive Json
  | null
  | bool (b : Bool)
  | num (n : Nat)
  | str (s : String)
  | arr (items : List Json)
  | obj (members : List (String × Json))

namespace Json

/-- A character as it stands inside a JSON string. -/
def escape (c : Char) : Text :=
  if c = '"' then ['\\', '"']
  else if c = '\\' then ['\\', '\\']
  else if c = '\n' then ['\\', 'n']
  else if c = '\r' then ['\\', 'r']
  else if c = '\t' then ['\\', 't']
  else if c.toNat = 0x08 then ['\\', 'b']
  else if c.toNat = 0x0c then ['\\', 'f']
  else if c.toNat < 0x20 then '\\' :: 'u' :: hexDigits 4 c.toNat
  else [c]

/-- A text as a JSON string. -/
def quoted (s : String) : String := "\"" ++ String.ofList (s.toList.flatMap escape) ++ "\""

mutual

/-- A value on one line, without blanks. -/
def compact : Json → String
  | .null => "null"
  | .bool b => toString b
  | .num n => toString n
  | .str s => quoted s
  | .arr items => "[" ++ String.intercalate "," (compactItems items) ++ "]"
  | .obj members => "\x7b" ++ String.intercalate "," (compactMembers members) ++ "\x7d"

/-- The written items of an array. -/
def compactItems : List Json → List String
  | [] => []
  | v :: vs => v.compact :: compactItems vs

/-- The written members of an object. -/
def compactMembers : List (String × Json) → List String
  | [] => []
  | (k, v) :: ms => (quoted k ++ ":" ++ v.compact) :: compactMembers ms

end

/-- Items between brackets, each on a line of its own that is indented by two blanks more than the
closing bracket; nothing between the brackets if there are none. -/
def lines (indent : Nat) (opening closing : String) (items : List String) : String :=
  match items with
  | [] => opening ++ closing
  | _ =>
    let newline := "\n" ++ String.ofList (List.replicate indent ' ')
    opening ++ newline ++ "  " ++ String.intercalate ("," ++ newline ++ "  ") items ++ newline ++ closing

mutual

/-- A value with one item a line; `indent` is the indentation of the line that it starts in. -/
def pretty (indent : Nat) : Json → String
  | .null => "null"
  | .bool b => toString b
  | .num n => toString n
  | .str s => quoted s
  | .arr items => lines indent "[" "]" (prettyItems (indent + 2) items)
  | .obj members => lines indent "\x7b" "\x7d" (prettyMembers (indent + 2) members)

/-- The written items of an array, whose lines are indented by `indent`. -/
def prettyItems (indent : Nat) : List Json → List String
  | [] => []
  | v :: vs => v.pretty indent :: prettyItems indent vs

/-- The written members of an object, whose lines are indented by `indent`. -/
def prettyMembers (indent : Nat) : List (String × Json) → List String
  | [] => []
  | (k, v) :: ms => (quoted k ++ ": " ++ v.pretty indent) :: prettyMembers indent ms

end

end Json

end Dcpu16
