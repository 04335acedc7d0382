import Dcpu16.Command.Usage

/-!
# Invocations

The grammar of command-line arguments. An option has a long name behind two dashes and may have a letter
behind one; letters may be joined. The value of an option follows an equals sign, or directly behind the
letter, or is the next argument unless that starts with a dash. Behind two dashes alone all is positional.
No option may stand twice.

Arguments are read from left to right. What is wrong first is reported, and a request for help counts if
nothing in front of it is wrong. A path and a value that is an argument of its own are checked when the next
option or path has been recognized, so that an unknown one is reported first.
-/

namespace Dcpu16

/-! ## Arguments with a dash in front -/

/-- What an argument, or a letter in it, stands for. -/
inductive Sign
  | help
  | option (form : OptionForm) (value : Option Text)
  deriving DecidableEq, Repr

/-- Whether it takes a value. -/
def Sign.takesValue : Sign → Bool
  | help => false
  | option form _ => form.kind.isSome

namespace Usage

/-- The form of the option that asks for help. -/
def helpForm : OptionForm := .flag "help"

/-- The forms of all options. -/
def forms (u : Usage) : List OptionForm := u.options ++ [helpForm]

/-- What a long name stands for, with its value if there is an equals sign. An unknown one might be meant as a
path, unless it resembles a known one. -/
def long (u : Usage) (t : Text) : Except Misuse Sign :=
  let name := t.takeWhile (· ≠ '=')
  match u.forms.find? (·.long.toList = name), t.dropWhile (· ≠ '=') with
  | none, _ =>
    let mistyped := u.forms.any (resembles name ·.long.toList)
    .error (.unknownOption (['-', '-'] ++ name) (!u.paths.isEmpty && !mistyped))
  | some form, [] => .ok (if form = helpForm then .help else .option form none)
  | some form, _ :: value => if form.kind.isSome then .ok (.option form value) else .error (.unwantedValue form value)

/-- What a letter stands for; `rest` is what follows it in its argument. -/
def letter (u : Usage) (c : Char) (rest : Text) : Except Misuse Sign :=
  match u.forms.find? (·.short = some c) with
  | none => .error (.unknownOption ['-', c] !u.paths.isEmpty)
  | some form =>
    if form = helpForm then .ok .help
    else if form.kind.isNone then .ok (.option form none)
    else
      match rest with
      | [] => .ok (.option form none)
      | '=' :: value | value => .ok (.option form value)

end Usage

/-! ## Reading arguments -/

/-- The arguments of a command: the options that stand there, each with its value, and the paths in order. -/
structure Invocation where
  options : List (String × Text) := []
  paths : List Text := []
  deriving Repr, Inhabited

/-- What has been read but not been checked. -/
inductive Pending
  | nothing
  /-- An option that needs a value, and the value if it has been read. -/
  | option (form : OptionForm) (value : Option Text)
  | path (path : Text)
  deriving DecidableEq, Repr

namespace Invocation

/-- Whether an option stands there. -/
def has (a : Invocation) (long : String) : Bool := (a.options.lookup long).isSome

/-- The value of an option that stands there. -/
def value? (a : Invocation) (long : String) : Option Text := a.options.lookup long

/-- Adds an option that does not stand there yet. -/
def add (a : Invocation) (form : OptionForm) (value : Text) : Except Refusal Invocation :=
  if a.has form.long then .error (.misused (.repeatedOption form))
  else if form.kind.any (!·.admits value) then .error (.misused (.badValue form value))
  else .ok { a with options := (form.long, value) :: a.options }

/-- Checks and adds what is pending. -/
def settle (u : Usage) (a : Invocation) : Pending → Except Refusal Invocation
  | .nothing => .ok a
  | .option form none => .error (.misused (.missingValue form))
  | .option form (some value) => a.add form value
  | .path path =>
    if path.isEmpty then .error (.misused (.emptyPath (u.paths.getD a.paths.length "")))
    else .ok { a with paths := a.paths ++ [path] }

/-- Reads an option. -/
def readSign (u : Usage) (a : Invocation) (pending : Pending) (s : Sign) : Except Refusal (Invocation × Pending) := do
  let a ← a.settle u pending
  match s with
  | .help => throw .help
  | .option form none => if form.kind.isSome then return (a, .option form none) else return (← a.add form [], .nothing)
  | .option form (some value) => return (← a.add form value, .nothing)

/-- Reads joined letters. One that takes a value is the last. -/
def readLetters (u : Usage) (a : Invocation) (pending : Pending) : Text → Except Refusal (Invocation × Pending)
  | [] => .ok (a, pending)
  | c :: cs =>
    match u.letter c cs with
    | .error why => .error (.misused why)
    | .ok s =>
      match a.readSign u pending s with
      | .error e => .error e
      | .ok (a, pending) => if s.takesValue then .ok (a, pending) else a.readLetters u pending cs

/-- Reads a path, if one more is needed. -/
def readPath (u : Usage) (a : Invocation) (pending : Pending) (path : Text) : Except Refusal (Invocation × Pending) :=
  let count :=
    match pending with
    | .path _ => a.paths.length + 1
    | _ => a.paths.length
  if count < u.paths.length then do return (← a.settle u pending, .path path)
  else .error (.misused (.surplusPath path))

/-- Reads an argument that is not behind two dashes alone. -/
def readArgument (u : Usage) (a : Invocation) (pending : Pending) (arg : Text) :
    Except Refusal (Invocation × Pending) :=
  match arg, pending with
  | '-' :: '-' :: t, _ =>
    match u.long t with
    | .ok s => a.readSign u pending s
    | .error why => .error (.misused why)
  | '-' :: c :: cs, _ => a.readLetters u pending (c :: cs)
  | _, .option form none => .ok (a, .option form (some arg))
  | _, _ => a.readPath u pending arg

/-- The arguments, if none is missing. -/
def complete (u : Usage) (a : Invocation) (pending : Pending) : Except Refusal Invocation :=
  match a.settle u pending with
  | .error e => .error e
  | .ok a =>
    match u.paths[a.paths.length]? with
    | none => .ok a
    | some name => .error (.misused (.missingPath name))

/-- Reads arguments behind two dashes alone. -/
def readPaths (u : Usage) (a : Invocation) (pending : Pending) : List Text → Except Refusal Invocation
  | [] => a.complete u pending
  | path :: rest =>
    match a.readPath u pending path with
    | .error e => .error e
    | .ok (a, pending) => a.readPaths u pending rest

/-- Reads arguments behind those that are in `a` and the one that is pending. -/
def readAll (u : Usage) (a : Invocation) (pending : Pending) : List Text → Except Refusal Invocation
  | [] => a.complete u pending
  | arg :: rest =>
    if arg = ['-', '-'] then a.readPaths u pending rest
    else
      match a.readArgument u pending arg with
      | .error e => .error e
      | .ok (a, pending) => a.readAll u pending rest

/-- Reads the arguments of a command. -/
def read (u : Usage) (args : List Text) : Except Refusal Invocation := readAll u {} .nothing args

/-! ## No path is missing -/

theorem le_length_of_complete {u : Usage} {a b : Invocation} {pending : Pending} (h : a.complete u pending = .ok b) :
    u.paths.length ≤ b.paths.length := by
  rw [complete] at h
  split at h
  · cases h
  · split at h
    · cases h
      exact List.getElem?_eq_none_iff.1 (by assumption)
    · cases h

theorem le_length_of_readPaths {u : Usage} {a b : Invocation} {pending : Pending} {args : List Text}
    (h : a.readPaths u pending args = .ok b) : u.paths.length ≤ b.paths.length := by
  induction args generalizing a pending with
  | nil => exact le_length_of_complete h
  | cons path rest ih =>
    rw [readPaths] at h
    split at h
    · cases h
    · exact ih h

theorem le_length_of_readAll {u : Usage} {a b : Invocation} {pending : Pending} {args : List Text}
    (h : a.readAll u pending args = .ok b) : u.paths.length ≤ b.paths.length := by
  induction args generalizing a pending with
  | nil => exact le_length_of_complete h
  | cons arg rest ih =>
    rw [readAll] at h
    split at h
    · exact le_length_of_readPaths h
    · split at h
      · cases h
      · exact ih h

/-- Arguments that are not refused have the paths that their command needs. -/
theorem le_length_of_read {u : Usage} {a : Invocation} {args : List Text} (h : read u args = .ok a) :
    u.paths.length ≤ a.paths.length :=
  le_length_of_readAll h

end Invocation

end Dcpu16
