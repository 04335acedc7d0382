import Dcpu16.Assembly.Argument

/-!
# Statements

A line of a program text holds labels, then at most one statement, then at most one comment. A statement
is data, an origin or an instruction. In strings commas and semicolons stand for themselves.
-/

namespace Dcpu16

/-! ## Strings in a line -/

/-- Where a reader of a line is with respect to strings. -/
inductive Quoting
  | outside | inside
  /-- Inside a string, behind a backslash. -/
  | escaped
  deriving DecidableEq, Repr

/-- Where the reader is behind the next character. -/
def Quoting.next : Quoting → Char → Quoting
  | .outside, c => if c = '"' then .inside else .outside
  | .inside, c => if c = '\\' then .escaped else if c = '"' then .outside else .inside
  | .escaped, _ => .inside

/-- A line up to the first semicolon outside strings. -/
def stripComment (line : Text) : Text := go .outside [] line
where
  /-- `kept` holds the characters so far, backwards. -/
  go (q : Quoting) (kept : Text) : Text → Text
    | [] => kept.reverse
    | c :: cs => if q = .outside ∧ c = ';' then kept.reverse else go (q.next c) (c :: kept) cs

/-- Splits at the commas outside strings and trims the items. A blank text has no items. -/
def splitItems (t : Text) : List Text := if t.all isBlank then [] else go .outside [] [] t
where
  /-- `item` holds the characters since the last comma, `done` the items before it, both backwards. -/
  go (q : Quoting) (item : Text) (done : List Text) : Text → List Text
    | [] => (trim item.reverse :: done).reverse
    | c :: cs =>
      if q = .outside ∧ c = ',' then go q [] (trim item.reverse :: done) cs else go (q.next c) (c :: item) done cs

/-! ## Data -/

/-- The character that a backslash and a character stand for. -/
def escaped? : Char → Option Char
  | 'n' => some '\n'
  | 't' => some '\t'
  | '0' => some '\x00'
  | '\\' => some '\\'
  | '"' => some '"'
  | _ => none

/-- The word of a character, if its code fits. -/
def charWord (c : Char) : Except Problem Word :=
  if c.toNat ≤ 0xffff then .ok (UInt16.ofNat c.toNat) else .error (.outOfRange c.toNat)

/-- The words of the characters that the inside of a string stands for. -/
def stringWords (body : Text) : Except Problem (List Word) := go [] body
where
  /-- `done` holds the words so far, backwards. -/
  go (done : List Word) : Text → Except Problem (List Word)
    | [] => .ok done.reverse
    | ['\\'] => .error (.malformed (.escape none))
    | '\\' :: e :: cs =>
      match escaped? e with
      | none => .error (.malformed (.escape (some e)))
      | some c => do go ((← charWord c) :: done) cs
    | c :: cs => do go ((← charWord c) :: done) cs

/-- Reads an item of data: a string or a value. -/
def parseItem : Text → Except Problem (List Value)
  | '"' :: body =>
    if body.getLast? = some '"' then do return (← stringWords body.dropLast).map .number
    else .error (.malformed .unterminatedString)
  | t => do return [← Value.parse t]

/-! ## Statements -/

/-- A statement. -/
inductive Statement
  | data (values : List Value)
  /-- The words that follow start at an address. -/
  | origin (target : Word)
  | basic (op : BasicOp) (b a : Argument)
  | special (op : SpecialOp) (a : Argument)
  deriving Repr

namespace Statement

/-- Reads the items of data. -/
def parseData (rest : Text) : Except Problem Statement :=
  let items := splitItems rest
  if items.all List.isEmpty then .error (.malformed .noData)
  else do return .data (← items.mapM parseItem).flatten

/-- Reads the address of an origin. -/
def parseOrigin (rest : Text) : Except Problem Statement := do
  match ← Value.parse rest with
  | .number target => .ok (.origin target)
  | .label _ => .error (.malformed .labelAsOrigin)

/-- Reads the arguments of a basic instruction, the destination first. -/
def parseBasic (op : BasicOp) (rest : Text) : Except Problem Statement :=
  match splitItems rest with
  | [b, a] => do
    let b ← Argument.parse .destination b
    let a ← Argument.parse .source a
    return .basic op b a
  | items => .error (.malformed (.operandCount op.mnemonic 2 items.length))

/-- Reads the argument of a special instruction. -/
def parseSpecial (op : SpecialOp) (rest : Text) : Except Problem Statement :=
  match splitItems rest with
  | [a] => do return .special op (← Argument.parse .source a)
  | items => .error (.malformed (.operandCount op.mnemonic 1 items.length))

/-- Reads a statement; its first word is the name of a directive or of an operation, in either case. -/
def parse (t : Text) : Except Problem Statement :=
  let (word, rest) := breakAtBlank t
  let name := upper word
  let rest := trim rest
  if name = "DAT".toList ∨ name = ".DAT".toList then parseData rest
  else if name = "ORG".toList ∨ name = ".ORG".toList then parseOrigin rest
  else
    match BasicOp.ofMnemonic? name, SpecialOp.ofMnemonic? name with
    | some op, _ => parseBasic op rest
    | none, some op => parseSpecial op rest
    | none, none => .error (.unknownMnemonic word)

end Statement

/-! ## Lines -/

/-- The lines of a text. A carriage return before the end of a line is a blank like others. -/
def splitLines (t : Text) : List Text := splitOn '\n' t

/-- The label at the start of a trimmed text, either behind a colon or with one at its end, and what follows. -/
def takeLabel? (t : Text) : Option (Text × Text) :=
  match t with
  | ':' :: rest =>
    let (name, rest) := breakAtBlank rest
    some (name, trimLeft rest)
  | _ =>
    let (word, rest) := breakAtBlank t
    if word.getLast? = some ':' then some (word.dropLast, trimLeft rest) else none

theorem length_takeLabel? {t name rest : Text} (h : takeLabel? t = some (name, rest)) : rest.length < t.length := by
  have drop (p : Char → Bool) (s : Text) : (s.dropWhile p).length ≤ s.length := (List.dropWhile_sublist p).length_le
  unfold takeLabel? at h
  split at h
  · next s =>
    simp only [Option.some.injEq, Prod.mk.injEq] at h
    obtain ⟨-, rfl⟩ := h
    have h1 := drop isBlank (breakAtBlank s).2
    have h2 := drop (!isBlank ·) s
    simp only [trimLeft, breakAtBlank, List.length_cons] at *
    omega
  · simp only at h
    split at h
    · next _ hw =>
      simp only [Option.some.injEq, Prod.mk.injEq] at h
      obtain ⟨-, rfl⟩ := h
      have h1 := drop isBlank (breakAtBlank t).2
      have h2 : (breakAtBlank t).1 ≠ [] := fun e => by simp [e] at hw
      have h3 := congrArg List.length (breakAtBlank_append t)
      have h4 := List.length_pos_iff.mpr h2
      simp only [trimLeft, List.length_append] at *
      omega
    · cases h

/-- The labels at the start of a trimmed text, and the statement behind them. -/
def splitLabels (t : Text) : List Text × Text :=
  match _h : takeLabel? t with
  | none => ([], t)
  | some (name, rest) =>
    let (names, statement) := splitLabels rest
    (name :: names, statement)
termination_by t.length
decreasing_by exact length_takeLabel? ‹_›

/-- The labels and the statement of a line, which is empty if there is none. -/
def splitLine (line : Text) : List Text × Text := splitLabels (trim (stripComment line))

end Dcpu16
