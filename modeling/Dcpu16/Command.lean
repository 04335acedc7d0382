import Dcpu16.Assembly
import Dcpu16.Command.Invocation
import Dcpu16.Command.Script
import Dcpu16.Image
import Dcpu16.Machine.Snapshot
import Dcpu16.SelfTest

/-!
# Commands

The commands of the command line: run or debug a program, assemble, disassemble, and the self-test. The
machine of `run` and `debug` has a clock, a floppy drive and a display, in that order. A program is an
image, or a program text if the name of its file ends like one.
-/

namespace Dcpu16

/-- How a machine is set up. -/
structure MachineOptions where
  /-- The file of the disk in the drive. -/
  disk : Option String := none
  writeProtected : Bool := false
  order : ByteOrder := .big
  deriving Repr, Inhabited

/-- A command with its arguments. -/
inductive Command
  | run (program : String) (maxCycles : Nat) (dumpState : Bool) (machine : MachineOptions)
  | debug (program : String) (machine : MachineOptions)
  | assemble (source : String) (output : Option String) (order : ByteOrder)
  | disassemble (image : String) (order : ByteOrder)
  | selfTest
  /-- No command at all. -/
  | greet
  | version
  | help
  deriving Repr, Inhabited

namespace Command

/-! ## Arguments -/

/-- The cycles of a run without a limit of its own. -/
def defaultCycles : Nat := 100000

/-- The options of the commands that set a machine up. -/
def machineForms : List OptionForm := [.valued "disk" .path, .flag "write-protected", .flag "little-endian"]

/-- The arguments of `run`. The flag `trace` asks for a log and changes nothing else. -/
def runUsage : Usage where
  options := [.valued "max-cycles" .natural64, .flag "trace", { long := "dump-state" }] ++ machineForms
  paths := ["PROGRAM"]

/-- The arguments of `debug`. -/
def debugUsage : Usage where
  options := machineForms
  paths := ["PROGRAM"]

/-- The arguments of `asm`. -/
def assembleUsage : Usage where
  options := [.valued "output" .path, .flag "little-endian"]
  paths := ["SOURCE"]

/-- The arguments of `disasm`. -/
def disassembleUsage : Usage where
  options := [.flag "little-endian"]
  paths := ["IMAGE"]

/-- The arguments in place of a command. -/
def mainUsage : Usage where
  options := [{ long := "version", short := some 'V' }]

/-- The names of the commands. -/
def names : List String := ["run", "debug", "asm", "disasm", "test", "help"]

/-- The byte order of images. -/
def byteOrder (a : Invocation) : ByteOrder := if a.has "little-endian" then .little else .big

/-- The path of a command that needs one. -/
def onePath (a : Invocation) : String := String.ofList (a.paths.headD [])

/-- The value of an option that is a path. -/
def pathValue (a : Invocation) (long : String) : Option String := (a.value? long).map String.ofList

/-- The cycles that a run is limited to. -/
def maxCycles (a : Invocation) : Nat := ((a.value? "max-cycles").bind natural64?).getD defaultCycles

/-- How the machine is to be set up. -/
def machineOptions (a : Invocation) : MachineOptions where
  disk := pathValue a "disk"
  writeProtected := a.has "write-protected"
  order := byteOrder a

/-- Reads the arguments of `help`: nothing, or the name of a command. -/
def readHelp : List Text → Refusal
  | [] => .help
  | name :: rest =>
    match names.contains (String.ofList name), rest with
    | true, [] => .help
    | true, extra :: _ => .misused (.unknownCommand extra)
    | false, _ => .misused (.unknownCommand name)

/-- Reads the arguments of the command of a name. -/
def readNamed (name : Text) (args : List Text) : Except Refusal Command := do
  match String.ofList name with
  | "run" =>
    let a ← Invocation.read runUsage args
    return .run (onePath a) (maxCycles a) (a.has "dump-state") (machineOptions a)
  | "debug" =>
    let a ← Invocation.read debugUsage args
    return .debug (onePath a) (machineOptions a)
  | "asm" =>
    let a ← Invocation.read assembleUsage args
    return .assemble (onePath a) (pathValue a "output") (byteOrder a)
  | "disasm" =>
    let a ← Invocation.read disassembleUsage args
    return .disassemble (onePath a) (byteOrder a)
  | "test" =>
    let _ ← Invocation.read {} args
    return .selfTest
  | "help" => throw (readHelp args)
  | _ => throw (.misused (.unknownCommand name))

/-- The command that an option stands for in place of a command. -/
def ofSign : Except Misuse Sign → Except Refusal Command
  | .ok (.option ..) => .ok .version
  | .ok .help => .error .help
  | .error why => .error (.misused why)

/-- Reads all arguments. -/
def read (args : List String) : Except Refusal Command :=
  match args.map String.toList with
  | [] | [['-', '-']] => .ok .greet
  | ['-', '-'] :: name :: _ => .error (.misused (.unknownCommand name))
  | ('-' :: '-' :: t) :: _ => ofSign (mainUsage.long t)
  | ('-' :: c :: cs) :: _ => ofSign (mainUsage.letter c cs)
  | name :: rest => readNamed name rest

/-! ## Images and programs -/

/-- Whether a file is named like a program text. -/
def isSource (path : String) : Bool :=
  match Path.extension? path.toList with
  | some e => ["asm".toList, "dasm".toList, "dasm16".toList, "s".toList].contains e
  | none => false

/-- The text of bytes in UTF-8. -/
def text? (bytes : Bytes) : Option Text := (String.fromUTF8? (ByteArray.mk bytes.toArray)).map String.toList

/-- Reads a program text and assembles it; `report` tells of a file that cannot be read. -/
def readSource (path : String) (report : String → String) (next : List Word → Script) : Script :=
  .read path fun
    | .error e => .fail (report e.message)
    | .ok bytes =>
      match text? bytes with
      | none => .fail (report "stream did not contain valid UTF-8")
      | some source =>
        match Dcpu16.assemble source with
        | .error e => if e.kind = .overflow then .overflow e.message else .fail ("Assembly error: " ++ e.message)
        | .ok image => next image

/-- How a file error is reported where an image is read or written. -/
def imageFileMessage (path : String) (e : FileError) : String := "I/O error: " ++ path ++ ": " ++ e.message

/-- Reads an image; `report` tells of a file that is none. -/
def readImage (path : String) (order : ByteOrder) (report : String → String) (next : List Word → Script) : Script :=
  .read path fun
    | .error e => .fail (report (imageFileMessage path e))
    | .ok bytes =>
      match Image.decode order bytes with
      | .error e => .fail (report e.message)
      | .ok image => next image

/-- Writes an image; `report` tells of a file that cannot be written. -/
def writeImage (path : String) (order : ByteOrder) (image : List Word) (report : String → String) (next : Script) :
    Script :=
  .write path (Image.encode order image) fun
    | .error e => .fail (report (imageFileMessage path e))
    | .ok () => next

/-- Reads the program of a path. -/
def loadProgram (path : String) (order : ByteOrder) (next : List Word → Script) : Script :=
  let check (image : List Word) : Script := if image.isEmpty then .fail "No program to execute" else next image
  if isSource path then
    readSource path (fun why => "Failed to read " ++ path ++ ": " ++ why) fun image =>
      .printLine s!"📝 Assembled {image.length} words" (check image)
  else
    readImage path order ("Failed to load image: " ++ ·) fun image =>
      .printLine s!"📂 Loaded {image.length} words" (check image)

/-- The slot of the floppy drive. -/
def driveIndex : Nat := 1

/-- The machine that runs a program, with a disk in the drive or none. -/
def standardMachine (program : List Word) (disk : Option Disk) : Except Fault Machine :=
  ({ devices := [.clock {}, .floppy { disk }, .display {}] } : Machine).flash program

/-- Reads the disk that is to be inserted. -/
def loadDisk (options : MachineOptions) (next : Option Disk → Script) : Script :=
  match options.disk with
  | none => next none
  | some path =>
    readImage path options.order ("Failed to load disk: " ++ ·) fun image =>
      match Disk.ofImage image options.writeProtected with
      | .error e => .fail ("Failed to load disk: " ++ e.message)
      | .ok disk => .printLine ("💾 Inserted " ++ path) (next (some disk))

/-- Sets a machine up. A program that does not fit is reported before the disk is read. -/
def buildMachine (program : List Word) (options : MachineOptions) (next : Machine → Script) : Script :=
  match standardMachine program none with
  | .error e => .fail ("Failed to load program: " ++ e.message)
  | .ok m => loadDisk options fun disk => next { m with devices := m.devices.set driveIndex (.floppy { disk }) }

/-! ## The commands -/

/-- The disk in the drive of a machine. -/
def diskOf? (m : Machine) : Option Disk :=
  match (m.devices[driveIndex]? : Option Device) with
  | some (.floppy f) => f.disk
  | _ => none

/-- Writes the disk back to its file, unless it is protected. -/
def saveDisk (m : Machine) (options : MachineOptions) (next : Script) : Script :=
  match options.disk, diskOf? m with
  | some path, some disk =>
    if options.writeProtected then next
    else writeImage path options.order disk.words ("Failed to save disk: " ++ ·) next
  | _, _ => next

/-- What a run shows at its end. -/
def resultLines (m : Machine) (t : Machine.Tally) : List String :=
  ["", "━━━ Result ━━━", s!"Cycles: {m.cycles}", "State: " ++ m.status.text, m.regs.text,
    s!"Pending interrupts: {m.interrupts.pending.length}"] ++
  if t.reserved = 0 then [] else [s!"⚠️  Skipped {t.reserved} reserved opcodes"]

/-- Runs a program. The disk is written back also after a fire, and before the result is shown. -/
def runScript (program : String) (maxCycles : Nat) (dumpState : Bool) (options : MachineOptions) : Script :=
  .printLine ("🔧 Running: " ++ program) <|
  loadProgram program options.order fun image =>
  buildMachine image options fun m =>
  let (m, t) := m.runThrough maxCycles {}
  if m.status = .overflowed then .overflow Fault.overflow.message
  else
    saveDisk m options <|
    .printLines (if dumpState then [m.snapshot.pretty 0] else resultLines m t) <|
    match m.checkRunning with
    | .ok () => .exit 0
    | .error e => .fail e.message

/-- Hands a machine with a program over to the debugger. -/
def debugScript (program : String) (options : MachineOptions) : Script :=
  .printLine ("🔍 Loading: " ++ program) <|
  loadProgram program options.order fun image =>
  buildMachine image options fun machine =>
  .printLine "🚀 Launching debugger..." (.debug { machine, program := image })

/-- Assembles a program text. The image goes to a file of the same name with the extension `bin`, if no other
is given. -/
def assembleScript (source : String) (output : Option String) (order : ByteOrder) : Script :=
  let path := output.getD (String.ofList (Path.withExtension source.toList "bin".toList))
  .printLine ("📝 Assembling: " ++ source ++ " → " ++ path) <|
  readSource source ("Failed to read file: " ++ ·) fun image =>
  .printLine s!"✓ Assembled {image.length} words" <|
  writeImage path order image ("Failed to save image: " ++ ·) <|
  .printLine ("✓ Saved to " ++ path) (.exit 0)

/-- Shows the listing of an image. -/
def disassembleScript (path : String) (order : ByteOrder) : Script :=
  .printLines ["📖 Disassembling: " ++ path, ""] <|
  readImage path order ("Failed to load image: " ++ ·) fun image =>
  .printLine (String.ofList (listing image)) (.exit 0)

/-- The line of a check, passed or failed. -/
def checkLine : String × Except String Unit → String
  | (name, .ok ()) => name ++ "... ✓"
  | (name, .error found) => name ++ "... ✗ (" ++ found ++ ")"

/-- Runs the checks of the self-test and counts those that passed. -/
def selfTestScript : Script :=
  let failed := (SelfTest.checks.filter fun c => !c.2.isOk).length
  let passed := SelfTest.checks.length - failed
  .printLines (["━━━ Saturn Self-Test ━━━", ""] ++ SelfTest.checks.map checkLine ++
    ["", "━━━━━━━━━━━━━━━━━━━━━━━━━━━━━━", s!"Results: {passed} passed, {failed} failed"]) <|
  if failed = 0 then .printLine "✓ All tests passed!" (.exit 0) else .exit 1

/-- What the commands are. -/
def helpLines : List String :=
  ["A DCPU-16 emulator with a floppy drive, clock and vector display", "",
    "Usage: saturn-emu [COMMAND]", "", "Commands:",
    "  run     Run a program for a number of cycles",
    "  debug   Interactive debugger",
    "  asm     Assemble source to a binary image",
    "  disasm  Disassemble a binary image to readable text",
    "  test    Run the built-in self-test"]

/-- What a command does. -/
def script : Command → Script
  | run program maxCycles dumpState machine => runScript program maxCycles dumpState machine
  | debug program machine => debugScript program machine
  | assemble source output order => assembleScript source output order
  | disassemble image order => disassembleScript image order
  | selfTest => selfTestScript
  | greet => .printLines ["Saturn DCPU-16 Emulator v0.1.0", "", "Use --help for available commands"] (.exit 0)
  | version => .printLine "saturn-emu 0.1.0" (.exit 0)
  | help => .printLines helpLines (.exit 0)

/-- What the command line does with its arguments. -/
def scriptOf (args : List String) : Script :=
  match read args with
  | .ok command => command.script
  | .error .help => help.script
  | .error (.misused why) => .misused why.message

end Command

end Dcpu16
