import Dcpu16.Command
import Dcpu16.Debugger.Screen

/-!
# The program

Carries out a command against the real files and the terminal. The debugger reads its keys line by line
and shows its screen after each.
-/

namespace Dcpu16

/-- The code of a failed operation of the system. Some operations answer it negated. -/
def systemCode (code : UInt32) : Nat := min code.toNat (-code).toNat

/-- The file error of a failed operation of the system. Where one kind of failure has several causes, the code of
the system tells them apart. -/
def FileError.ofError : IO.Error → FileError
  | .noFileOrDirectory .. => .notFound
  | e@(.noSuchThing _ code _) | e@(.permissionDenied _ code _) | e@(.inappropriateType _ code _)
  | e@(.resourceExhausted _ code _) | e@(.invalidArgument _ code _) =>
    match systemCode code with
    | 6 => .noDevice
    | 13 => .notPermitted
    | 20 => .notDirectory
    | 21 => .isDirectory
    | 28 => .noSpace
    | 36 => .nameTooLong
    | _ => .other (toString e)
  | e => .other (toString e)

/-- Tries an operation on files. -/
def attempt {α : Type} (op : IO α) : IO (Except FileError α) := do
  match ← op.toBaseIO with
  | .ok v => return .ok v
  | .error e => return .error (.ofError e)

/-- The width and height of the debugger's screen. -/
def screenSize : Nat × Nat := (120, 40)

/-- Lets the machine of a debugger run up to a breakpoint or a fault, for at most `n` ticks. -/
def Debugger.settle (d : Debugger) : (n : Nat) → Debugger
  | 0 => d
  | n + 1 => if d.running then d.tick.settle n else d

/-- The end of a program by an overflow. -/
def endByOverflow (report : String) : IO UInt32 := do
  IO.eprintln report
  return UInt32.ofNat Script.overflowCode

/-- Shows the screen and handles the keys of a line, until the end of the input or the key for quitting; answers the
exit code. -/
partial def debugLoop (d : Debugger) (input output : IO.FS.Stream) : IO UInt32 := do
  for row in d.screen screenSize.1 screenSize.2 do
    output.putStrLn (String.ofList (row.map (·.char)))
  output.flush
  let line ← input.getLine
  if line.isEmpty || line.toList.contains 'q' then return 0
  let d := ((line.toList.filterMap Debugger.Key.ofLetter?).foldl Debugger.press d).settle 2000
  if d.machine.status = .overflowed then endByOverflow Fault.overflow.message
  else debugLoop d input output

/-- Carries out a script; answers the exit code. -/
def Script.perform : Script → IO UInt32
  | .exit code => return UInt32.ofNat code
  | .fail report => do
    IO.eprint (shownFailure report)
    return 1
  | .misused report => do
    IO.eprint (shownMisuse report)
    return 2
  | .overflow report => endByOverflow report
  | .debug d => do
    debugLoop d (← IO.getStdin) (← IO.getStdout)
  | .print text next => do
    IO.print text
    (← IO.getStdout).flush
    next.perform
  | .read path next => do
    let contents ← attempt (IO.FS.readBinFile path)
    (next (contents.map ByteArray.toList)).perform
  | .write path contents next => do
    let outcome ← attempt <| IO.FS.withFile path .write fun file => do
      file.write (ByteArray.mk contents.toArray)
      file.flush
    (next outcome).perform

end Dcpu16

/-- The command line. -/
def main (args : List String) : IO UInt32 := (Dcpu16.Command.scriptOf args).perform
