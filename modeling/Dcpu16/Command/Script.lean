import Dcpu16.Command.Files
import Dcpu16.Debugger
import Dcpu16.Text.Utf8

/-!
# Scripts

What a command does, as a value: printing, reading and writing files, and the end. A script can be carried
out against a tree of files, or by a program that really reads, writes and prints.
-/

namespace Dcpu16

/-- The steps of a command. -/
inductive Script
  /-- The end, with an exit code. -/
  | exit (code : Nat)
  /-- The end, with a report of what failed. -/
  | fail (report : String)
  /-- The end, with a report of what is wrong with the arguments. -/
  | misused (report : String)
  /-- The end, by a number that leaves its type, with a report of the operation. -/
  | overflow (report : String)
  /-- The end, by handing over to the debugger. -/
  | debug (d : Debugger)
  | print (text : String) (next : Script)
  | read (path : String) (next : Except FileError Bytes → Script)
  | write (path : String) (contents : Bytes) (next : Except FileError Unit → Script)

namespace Script

/-- Prints a line. -/
def printLine (text : String) (next : Script) : Script := .print (text ++ "\n") next

/-- Prints lines in order. -/
def printLines (lines : List String) (next : Script) : Script := lines.foldr printLine next

/-- The character that a report of what failed starts with. -/
def failureMark : Char := '❌'

/-- How a report of what failed is shown. -/
def shownFailure (report : String) : String := String.ofList [failureMark, ' '] ++ report ++ "\n"

/-- How a report of what is wrong with the arguments is shown. -/
def shownMisuse (report : String) : String := "error: " ++ report ++ "\n\nFor more information, try '--help'.\n"

/-- The exit code of a program that is ended by an overflow. -/
def overflowCode : Nat := 101

/-- What has been written to the streams. -/
structure Console where
  output : ByteArray := .empty
  errors : ByteArray := .empty
  deriving Inhabited

/-- Writes to a stream. -/
def Console.put (c : Console) (s : Stream) (bytes : ByteArray) : Console :=
  match s with
  | .output => { c with output := c.output ++ bytes }
  | .errors => { c with errors := c.errors ++ bytes }

/-- What has been printed. -/
def Console.printed (c : Console) : Text := Utf8.decode c.output

/-- The lines of what has been reported that start with the mark. Paths and other arguments may hold line breaks, so
there may be any number of them. -/
def Console.failures (c : Console) : List Text := (lines (Utf8.decode c.errors)).filter (·.head? = some failureMark)

/-- How a script ended and what it left behind. -/
structure Outcome where
  console : Console
  code : Nat
  files : FileTree
  /-- The debugger that was started. -/
  debugger : Option Debugger := none

/-- Carries out a script on a tree of files; `console` holds what was written before. -/
def eval (files : FileTree) (console : Console) : Script → Outcome
  | exit code => { console, code, files }
  | fail report => { console := console.put .errors (shownFailure report).toUTF8, code := 1, files }
  | misused report => { console := console.put .errors (shownMisuse report).toUTF8, code := 2, files }
  | overflow report => { console := console.put .errors (report ++ "\n").toUTF8, code := overflowCode, files }
  | debug d => { console, code := 0, files, debugger := some d }
  | print text next => next.eval files (console.put .output text.toUTF8)
  | read path next => (next (files.read path.toList)).eval files console
  | write path contents next =>
    match files.write path.toList contents, files.stream? path.toList with
    | .ok files, none => (next (.ok ())).eval files console
    | .ok files, some s => (next (.ok ())).eval files (console.put s (ByteArray.mk contents.toArray))
    | .error e, _ => (next (.error e)).eval files console

end Script

end Dcpu16
