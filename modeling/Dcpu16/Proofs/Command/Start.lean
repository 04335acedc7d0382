import Dcpu16.Command
import Dcpu16.Proofs.Command.Files

/-!
# How a run starts

What the script of a run reads before its machine is built, as values: the program, the disk and the machine that has
both. Where there is no such value the script reports a failure and has changed no file, and otherwise it goes on with
it (`Script.ComesTo`).
-/

namespace Dcpu16

/-- The end of a script that reports a failure, or an overflow, and has changed no file. -/
structure Script.Outcome.Refused (o : Script.Outcome) (files : FileTree) : Prop where
  code : o.code = 1 ∨ o.code = Script.overflowCode
  files : o.files = files

/-- **What a script comes to**: carried out on a tree of files, it goes on as `next` does with a value, having printed
something; or there is no value, and it is refused. -/
def Script.ComesTo {α : Type} (script : Script) (files : FileTree) : (value : Option α) → (next : α → Script) → Prop
  | none, _ => ∀ console, (script.eval files console).Refused files
  | some v, next => ∀ console, ∃ console', script.eval files console = (next v).eval files console'

namespace Command

/-! ## What is read -/

/-- The words of the image at a path. -/
def image? (files : FileTree) (path : String) (order : ByteOrder) : Option (List Word) :=
  (files.read path.toList).toOption.bind fun bytes => (Image.decode order bytes).toOption

/-- The words of the program text at a path. -/
def source? (files : FileTree) (path : String) : Option (List Word) :=
  ((files.read path.toList).toOption.bind text?).bind fun source => (Dcpu16.assemble source).toOption

/-- The words of the program at a path; a program has some. -/
def program? (files : FileTree) (path : String) (order : ByteOrder) : Option (List Word) :=
  (if isSource path then source? files path else image? files path order).bind fun image =>
    if image.isEmpty then none else some image

/-- What is put into the drive: the disk of an image, or nothing if none is asked for. -/
def disk? (files : FileTree) (options : MachineOptions) : Option (Option Disk) :=
  match options.disk with
  | none => some none
  | some path => (image? files path options.order).bind fun image =>
    (Disk.ofImage image options.writeProtected).toOption.map some

/-- The machine that a run starts with. -/
def machine? (files : FileTree) (program : String) (options : MachineOptions) : Option Machine :=
  (program? files program options.order).bind fun image =>
  (disk? files options).bind fun disk => (standardMachine image disk).toOption

/-- What a run shows at its end, by lines or as one value, and how it exits. -/
def shown (dumpState : Bool) (final : Machine × Machine.Tally) : Script :=
  .printLines (if dumpState then [final.1.snapshot.pretty 0] else resultLines final.1 final.2) <|
  match final.1.checkRunning with
  | .ok () => .exit 0
  | .error e => .fail e.message

/-- The end of a run: the disk is written back, and the machine is shown. Behind an overflow there is nothing more to
do. -/
def ending (dumpState : Bool) (options : MachineOptions) (final : Machine × Machine.Tally) : Script :=
  if final.1.status = .overflowed then .overflow Fault.overflow.message
  else saveDisk final.1 options (shown dumpState final)

end Command

namespace Script

open Command

variable {α β : Type} {files : FileTree} {script : Script} {value : Option α} {next : α → Script}

/-! ## Steps of scripts -/

/-- A script comes to what another comes to, if it goes on as the other. -/
theorem ComesTo.of_eval {other : Script} (h : other.ComesTo files value next)
    (goes : ∀ console, ∃ console', script.eval files console = other.eval files console') :
    script.ComesTo files value next := by
  cases value with
  | none =>
    intro console
    obtain ⟨console', same⟩ := goes console
    rw [same]
    exact h console'
  | some v =>
    intro console
    obtain ⟨console', same⟩ := goes console
    rw [same]
    exact h console'

theorem ComesTo.printLine (h : script.ComesTo files value next) (text : String) :
    (printLine text script).ComesTo files value next := h.of_eval fun _ => ⟨_, rfl⟩

theorem comesTo_next (v : α) (next : α → Script) : (next v).ComesTo files (some v) next :=
  fun console => ⟨console, rfl⟩

theorem comesTo_fail (report : String) (next : α → Script) : (fail report).ComesTo files none next :=
  fun _ => ⟨.inl rfl, rfl⟩

theorem comesTo_overflow (report : String) (next : α → Script) : (overflow report).ComesTo files none next :=
  fun _ => ⟨.inr rfl, rfl⟩

/-- A value that a script goes on with may lead to another. -/
theorem ComesTo.bind {f : α → Option β} {last : β → Script} (h : script.ComesTo files value next)
    (rest : ∀ v, (next v).ComesTo files (f v) last) : script.ComesTo files (value.bind f) last := by
  cases value with
  | none => exact h
  | some v => exact (rest v).of_eval h

/-- A script that reads a file goes on as what it does with the bytes. -/
theorem comesTo_read {path : String} {next : Except FileError Bytes → Script} {f : Bytes → Option β}
    {last : β → Script} (unread : ∀ e, ∃ report, next (.error e) = .fail report)
    (rest : ∀ bytes, (next (.ok bytes)).ComesTo files (f bytes) last) :
    (read path next).ComesTo files ((files.read path.toList).toOption.bind f) last := by
  have opens : (read path next).ComesTo files (files.read path.toList).toOption (next ∘ .ok) := by
    cases h : files.read path.toList with
    | error e =>
      intro console
      obtain ⟨report, failed⟩ := unread e
      rw [eval, h, failed]
      exact comesTo_fail report next console
    | ok bytes =>
      intro console
      refine ⟨console, ?_⟩
      rw [eval, h]
      rfl
  exact opens.bind rest

theorem comesTo_readImage (path : String) (order : ByteOrder) (report : String → String) (next : List Word → Script) :
    (readImage path order report next).ComesTo files (image? files path order) next := by
  refine comesTo_read (fun e => ⟨_, rfl⟩) fun bytes => ?_
  dsimp only
  cases Image.decode order bytes with
  | error e => exact comesTo_fail _ next
  | ok image => exact comesTo_next image next

theorem comesTo_readSource (path : String) (report : String → String) (next : List Word → Script) :
    (readSource path report next).ComesTo files (source? files path) next := by
  rw [source?, Option.bind_assoc]
  refine comesTo_read (fun e => ⟨_, rfl⟩) fun bytes => ?_
  dsimp only
  cases text? bytes with
  | none => exact comesTo_fail _ next
  | some source =>
    rw [Option.bind_some]
    dsimp only
    cases Dcpu16.assemble source with
    | error e =>
      dsimp only
      split
      · exact comesTo_overflow _ next
      · exact comesTo_fail _ next
    | ok image => exact comesTo_next image next

end Script

/-! ## The parts of a run -/

namespace Command

variable {files : FileTree}

theorem comesTo_loadProgram (path : String) (order : ByteOrder) (next : List Word → Script) :
    (loadProgram path order next).ComesTo files (program? files path order) next := by
  have check (image : List Word) (line : String) :
      (Script.printLine line (if image.isEmpty then .fail "No program to execute" else next image)).ComesTo files
        (if image.isEmpty then none else some image) next := by
    apply Script.ComesTo.printLine
    split
    · exact Script.comesTo_fail _ next
    · exact Script.comesTo_next image next
  unfold loadProgram program?
  dsimp only
  split
  · exact (Script.comesTo_readSource path _ _).bind fun image => check image _
  · exact (Script.comesTo_readImage path order _ _).bind fun image => check image _

theorem comesTo_loadDisk (options : MachineOptions) (next : Option Disk → Script) :
    (loadDisk options next).ComesTo files (disk? files options) next := by
  unfold loadDisk disk?
  cases options.disk with
  | none => exact Script.comesTo_next none next
  | some path =>
    refine (Script.comesTo_readImage path options.order _ _).bind fun image => ?_
    cases Disk.ofImage image options.writeProtected with
    | error e => exact Script.comesTo_fail _ next
    | ok disk => exact (Script.comesTo_next (some disk) next).printLine _

theorem comesTo_buildMachine (image : List Word) (options : MachineOptions) (next : Machine → Script) :
    (buildMachine image options next).ComesTo files
      ((disk? files options).bind fun disk => (standardMachine image disk).toOption) next := by
  unfold buildMachine standardMachine Machine.flash
  cases Memory.ofImage image with
  | error e =>
    have none_built : ((disk? files options).bind fun _ => (none : Option Machine)) = none := by
      cases disk? files options <;> rfl
    dsimp only [Except.toOption]
    rw [none_built]
    exact Script.comesTo_fail _ next
  | ok mem =>
    refine (comesTo_loadDisk options _).bind fun disk => ?_
    exact Script.comesTo_next _ next

/-- A program that fits into memory is flashed. -/
theorem exists_standardMachine {image : List Word} (fits : image.length ≤ Word.count) (disk : Option Disk) :
    ∃ m, standardMachine image disk = .ok m := by
  simp only [standardMachine, Machine.flash, Memory.ofImage, if_pos fits]
  exact ⟨_, rfl⟩

/-- **A run comes to its end** with the machine that it starts with, run for all its cycles. -/
theorem comesTo_run (files : FileTree) (program : String) (cycles : Nat) (dumpState : Bool) (options : MachineOptions) :
    (run program cycles dumpState options).script.ComesTo files
      ((machine? files program options).map fun m => m.runThrough cycles {}) (ending dumpState options) := by
  have starts : (run program cycles dumpState options).script.ComesTo files (machine? files program options)
      fun m => ending dumpState options (m.runThrough cycles {}) :=
    ((comesTo_loadProgram program options.order _).bind fun image =>
      comesTo_buildMachine image options fun m => ending dumpState options (m.runThrough cycles {})).printLine _
  rw [Option.map_eq_bind]
  exact starts.bind fun m => Script.comesTo_next _ _

end Command

end Dcpu16
