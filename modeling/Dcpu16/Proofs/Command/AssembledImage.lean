import Dcpu16.Proofs.Assembly.Passes
import Dcpu16.Proofs.Command.Start
import Dcpu16.Proofs.Cycle.Runs
import Dcpu16.Proofs.Image

/-!
# Running what was assembled

A program text can be run at once, or assembled to an image that is run in its place. The way over the image, which is
encoded, written, read and decoded, leads to the same machine, in both byte orders (`assembled_runs_as_source`).
-/

namespace Dcpu16

theorem length_of_assemble {source : Text} {words : List Word} (h : assemble source = .ok words) :
    words.length ≤ Word.count := by
  obtain ⟨l, -, h⟩ := bind_eq_ok.mp h
  split at h
  · cases h
  · next fits =>
    rw [length_of_mapM_eq_ok h, Array.length_toList]
    exact Nat.le_of_not_lt fits

namespace Command

/-- The path that an image is written to. -/
def outputPath (source : String) (output : Option String) : String :=
  output.getD (String.ofList (Path.withExtension source.toList "bin".toList))

/-- What is done with the words of a text that was assembled: their image is written. -/
def saving (path : String) (order : ByteOrder) (image : List Word) : Script :=
  .printLine s!"✓ Assembled {image.length} words" <|
  writeImage path order image ("Failed to save image: " ++ ·) <|
  .printLine ("✓ Saved to " ++ path) (.exit 0)

/-- **What is assembled**: the text at a path that is named like one, with some words, to another that is not. -/
structure Assembles (files : FileTree) (source path : String) (image : List Word) (place : Place) : Prop where
  named : isSource source = true
  words : source? files source = some image
  nonempty : image ≠ []
  other : isSource path = false
  writable : files.Writable path.toList place

/-- **Two programs run alike**: the runs start with the same machine, if the disk can be read, and come to the same end
after any number of cycles. -/
structure RunAlike (files : FileTree) (program : String) (files' : FileTree) (program' : String)
    (options : MachineOptions) : Prop where
  starts : (machine? files program options).isSome ↔ (disk? files options).isSome
  machine : machine? files' program' options = machine? files program options
  ends (cycles : Nat) (dumpState : Bool) : ∃ final : Option (Machine × Machine.Tally),
    final.map Prod.fst = (machine? files program options).map (·.afterCycles cycles) ∧
      (run program cycles dumpState options).script.ComesTo files final (ending dumpState options) ∧
      (run program' cycles dumpState options).script.ComesTo files' final (ending dumpState options)

section
variable {files : FileTree} {source path : String} {image : List Word} {place : Place} {order : ByteOrder}
  {options : MachineOptions}

theorem length_of_source? (h : source? files source = some image) : image.length ≤ Word.count := by
  obtain ⟨text, -, assembled⟩ := Option.bind_eq_some_iff.mp h
  exact length_of_assemble (eq_ok_of_toOption assembled)

/-! ## Programs -/

theorem program?_source (h : Assembles files source path image place) : program? files source order = some image := by
  have some_words : image.isEmpty = false := List.isEmpty_eq_false_iff.mpr h.nonempty
  rw [program?, if_pos h.named, h.words, Option.bind_some, some_words]
  rfl

theorem program?_image (h : Assembles files source path image place) :
    program? (files.put place (Image.encode order image)) path order = some image := by
  have read : (files.put place (Image.encode order image)).read path.toList = .ok (Image.encode order image) :=
    FileTree.read_put h.writable
  rw [program?, h.other, image?, read]
  simp [Except.toOption, Image.decode_encode, h.nonempty]

/-- A disk that is in another file stays. -/
theorem disk?_put (w : files.Writable path.toList place) (contents : Bytes)
    (apart : ∀ disk, options.disk = some disk → files.locate disk.toList ≠ .ok place) :
    disk? (files.put place contents) options = disk? files options := by
  unfold disk?
  cases asked : options.disk with
  | none => rfl
  | some disk =>
    dsimp only
    rw [image?, image?, FileTree.toOption_read_put w (apart disk asked)]

/-! ## Assembling -/

theorem comesTo_assemble (files : FileTree) (source : String) (output : Option String) (order : ByteOrder) :
    (assemble source output order).script.ComesTo files (source? files source)
      (saving (outputPath source output) order) :=
  (Script.comesTo_readSource source _ _).printLine _

/-- Words are written as their image. -/
theorem eval_saving (w : files.Writable path.toList place) (order : ByteOrder) (image : List Word)
    (console : Script.Console) :
    ((saving path order image).eval files console).code = 0 ∧
      ((saving path order image).eval files console).files = files.put place (Image.encode order image) := by
  simp only [saving, Script.printLine, writeImage, Script.eval, FileTree.write_of_writable w,
    FileTree.stream?_of_writable w, and_self]

theorem runAlike_of_assembles (h : Assembles files source path image place)
    (apart : ∀ disk, options.disk = some disk → files.locate disk.toList ≠ .ok place) :
    RunAlike files source (files.put place (Image.encode options.order image)) path options := by
  have machine : machine? (files.put place (Image.encode options.order image)) path options =
      machine? files source options := by
    rw [machine?, machine?, program?_image h, program?_source h, disk?_put h.writable _ apart]
  refine ⟨?_, machine, ?_⟩
  · rw [machine?, program?_source h, Option.bind_some]
    cases disk? files options with
    | none => rfl
    | some disk =>
      obtain ⟨m, built⟩ := exists_standardMachine (length_of_source? h.words) disk
      rw [Option.bind_some, built]
      rfl
  · intro cycles dumpState
    refine ⟨_, ?_, comesTo_run files source cycles dumpState options, ?_⟩
    · rw [Option.map_map]
      exact congrArg (Option.map · _) (funext fun m => m.runThrough_eq cycles {})
    · rw [← machine]
      exact comesTo_run _ path cycles dumpState options

end

/-- **An assembled image runs as its source.** In either byte order an image is read if its size is even, and reading
and writing undo each other; in the other order the bytes of each word are exchanged. So a program text that is
assembled has its image written, and the image in its place runs alike with every disk that is in another file. -/
theorem assembled_runs_as_source :
    (∀ order, Image.Faithful order) ∧
      ∀ (files : FileTree) (source : String) (output : Option String) (order : ByteOrder) (image : List Word)
        (place : Place) (console : Script.Console), Assembles files source (outputPath source output) image place →
        let assembled := (assemble source output order).script.eval files console
        assembled.code = 0 ∧ assembled.files = files.put place (Image.encode order image) ∧
          ∀ options : MachineOptions, options.order = order →
            (∀ disk, options.disk = some disk → files.locate disk.toList ≠ .ok place) →
            RunAlike files source assembled.files (outputPath source output) options := by
  refine ⟨Image.faithful, ?_⟩
  intro files source output order image place console h assembled
  have reads := comesTo_assemble files source output order
  rw [h.words] at reads
  obtain ⟨console', ends⟩ := reads console
  obtain ⟨code, written⟩ := eval_saving h.writable order image console'
  rw [← ends] at code written
  refine ⟨code, written, ?_⟩
  intro options same apart
  subst same
  rw [show assembled.files = _ from written]
  exact runAlike_of_assembles h apart

/-- A text with a loop, and a disk without words. -/
def looping : FileTree where
  files := [(["loop.asm".toList], ":loop SET A, 7\n SET PC, loop".toUTF8.toList), (["disk.img".toList], [])]

/-- The text is assembled to `loop.bin`, which runs alike with the disk. -/
theorem assembled_runs_as_source_of_looping :
    Assembles looping "loop.asm" (outputPath "loop.asm" none) [0xa001, 0x7f81, 0] ["loop.bin".toList] ∧
      RunAlike looping "loop.asm" ((assemble "loop.asm" none .little).script.eval looping {}).files
        (outputPath "loop.asm" none) { disk := some "disk.img", order := .little } := by
  have target : looping.target (outputPath "loop.asm" none).toList = .ok ["loop.bin".toList] := by decide +kernel
  have assembles : Assembles looping "loop.asm" (outputPath "loop.asm" none) [0xa001, 0x7f81, 0] ["loop.bin".toList] :=
    { named := by decide +kernel
      words := by decide +kernel
      nonempty := List.cons_ne_nil _ _
      other := by decide +kernel
      writable := ⟨target, .inr ⟨by decide +kernel, ⟨[], "loop.bin".toList, rfl, by decide +kernel⟩, by decide⟩⟩ }
  have apart : looping.locate "disk.img".toList ≠ .ok ["loop.bin".toList] := by decide +kernel
  obtain ⟨-, alike⟩ := assembled_runs_as_source
  obtain ⟨-, -, alike⟩ := alike looping "loop.asm" none .little _ _ {} assembles
  refine ⟨assembles, alike { disk := some "disk.img", order := .little } rfl ?_⟩
  intro disk asked
  cases asked
  exact apart

end Command

end Dcpu16
