import Dcpu16.Proofs.Command.Start
import Dcpu16.Proofs.Cycle.Runs
import Dcpu16.Proofs.Device.Disk
import Dcpu16.Proofs.Device.Drive.Inserted
import Dcpu16.Proofs.Image

/-!
# Disk files

A run that is given a file with a disk has the disk in its drive to the end, and writes it back. Reserved words and fire
make no difference, since the disk is written before the machine is shown. Behind the run the file has all words of the
disk, and another run finds them there (`disk_survives_run`).
-/

namespace Dcpu16

namespace Command

/-- **A run with a disk to write on**: the file of the disk is an ordinary one whose image fits on a disk, and there is
a program that fits into memory. -/
structure Equipped (files : FileTree) (program : String) (options : MachineOptions) (path : String) : Prop where
  disk : options.disk = some path
  writable : options.writeProtected = false
  file : ∃ bytes image, files.contents? path.toList = some bytes ∧ Image.decode options.order bytes = .ok image ∧
    image.length ≤ 737280
  program : ∃ words, program? files program options.order = some words ∧ words.length ≤ 0x10000

/-- **A file keeps a disk**: all its words are there, and a run that is given the file starts with them. -/
structure KeepsDisk (files : FileTree) (path : String) (order : ByteOrder) (disk : Disk) : Prop where
  /-- The words of the disk and no others are read from the file. -/
  image : ∃ bytes, files.contents? path.toList = some bytes ∧ Image.decode order bytes = .ok disk.words
  complete : disk.words.length = 737280
  /-- Another disk may be protected, but has the same sectors. -/
  next {options : MachineOptions} (asked : options.disk = some path) (same : options.order = order) :
    ∃ d, (∀ n, d.sector? n = disk.sector? n) ∧ disk? files options = some (some d) ∧
      ∀ program m, machine? files program options = some m → diskOf? m = some d

section
variable {files : FileTree} {program path : String} {options : MachineOptions} {m : Machine} {disk : Disk}

/-! ## The disk of a machine -/

theorem isSome_diskOf?_iff : (diskOf? m).isSome ↔ m.HoldsAt driveIndex Device.HasDisk := by
  unfold diskOf? Machine.HoldsAt
  cases m.devices[driveIndex]? with
  | none => simp
  | some d => cases d <;> simp [Device.HasDisk]

/-- A disk that is in the drive at the start of a run is there at its end. -/
theorem isSome_diskOf?_afterCycles (h : (diskOf? m).isSome) (n : Nat) : (diskOf? (m.afterCycles n)).isSome :=
  isSome_diskOf?_iff.mpr (Machine.holdsAt_afterCycles Device.kept_hasDisk (isSome_diskOf?_iff.mp h) n)

theorem diskOf?_of_standardMachine {image : List Word} {disk : Option Disk} (h : standardMachine image disk = .ok m) :
    diskOf? m = disk := by
  unfold standardMachine Machine.flash at h
  split at h
  · cases h
    rfl
  · cases h

/-- A run starts with what is put into the drive. -/
theorem disk?_of_machine? (h : machine? files program options = some m) : disk? files options = some (diskOf? m) := by
  unfold machine? at h
  obtain ⟨words, -, h⟩ := Option.bind_eq_some_iff.mp h
  obtain ⟨disk, inserted, h⟩ := Option.bind_eq_some_iff.mp h
  rw [inserted, diskOf?_of_standardMachine (eq_ok_of_toOption h)]

/-! ## Starting -/

theorem image?_of_contents {bytes : Bytes} {order : ByteOrder} (file : files.contents? path.toList = some bytes) :
    image? files path order = (Image.decode order bytes).toOption := by
  rw [image?, FileTree.read_of_contents file]
  rfl

theorem exists_machine?_of_equipped (h : Equipped files program options path) :
    ∃ m, machine? files program options = some m ∧ (diskOf? m).isSome := by
  obtain ⟨bytes, image, file, decoded, fits⟩ := h.file
  obtain ⟨words, loaded, small⟩ := h.program
  obtain ⟨disk, inserted⟩ : ∃ disk, disk? files options = some (some disk) := by
    have made : Disk.ofImage image options.writeProtected = .ok _ := if_pos fits
    simp only [disk?, h.disk, image?_of_contents file, decoded, made, Except.toOption, Option.bind_some]
    exact ⟨_, rfl⟩
  obtain ⟨m, built⟩ := exists_standardMachine small (some disk)
  refine ⟨m, ?_, ?_⟩
  · rw [machine?, loaded, Option.bind_some, inserted, Option.bind_some, built]
    rfl
  · rw [diskOf?_of_standardMachine built]
    rfl

/-! ## The end of a run -/

theorem eval_printLines (files : FileTree) (lines : List String) (script : Script) (console : Script.Console) :
    ∃ console', (Script.printLines lines script).eval files console = script.eval files console' := by
  induction lines generalizing console with
  | nil => exact ⟨console, rfl⟩
  | cons line lines ih => exact ih (console.put .output (line ++ "\n").toUTF8)

section
variable {dumpState : Bool} {final : Machine × Machine.Tally} {console : Script.Console}

/-- Showing a machine changes no file, and tells whether it burns. -/
theorem eval_shown : ((shown dumpState final).eval files console).files = files ∧
    ((shown dumpState final).eval files console).code = if final.1.isRunning then 0 else 1 := by
  cases status : final.1.status with
  | running =>
    simp only [shown, Machine.checkRunning, Machine.isRunning, status]
    obtain ⟨console', same⟩ := eval_printLines files _ (.exit 0) console
    rw [same]
    exact ⟨rfl, rfl⟩
  | onFire _ | overflowed =>
    simp only [shown, Machine.checkRunning, Machine.isRunning, status]
    obtain ⟨console', same⟩ := eval_printLines files _ (.fail (Fault.message _)) console
    rw [same]
    exact ⟨rfl, rfl⟩

theorem files_ending_of_protected (h : options.writeProtected) :
    ((ending dumpState options final).eval files console).files = files := by
  unfold ending
  split
  · rfl
  · have shows : saveDisk final.1 options (shown dumpState final) = shown dumpState final := by
      unfold saveDisk
      split
      · exact if_pos h
      · rfl
    rw [shows]
    exact eval_shown.1

/-- The disk is written to its file. -/
theorem eval_ending {place : Place} (dumpState : Bool) (console : Script.Console) (asked : options.disk = some path)
    (unprotected : options.writeProtected = false) (inside : diskOf? final.1 = some disk)
    (w : files.Writable path.toList place) (goesOn : final.1.status ≠ .overflowed) :
    ((ending dumpState options final).eval files console).files =
        files.put place (Image.encode options.order disk.words) ∧
      ((ending dumpState options final).eval files console).code = if final.1.isRunning then 0 else 1 := by
  have saves : ((ending dumpState options final).eval files console) =
      (shown dumpState final).eval (files.put place (Image.encode options.order disk.words)) console := by
    rw [ending, if_neg goesOn, saveDisk, asked, inside]
    simp only [unprotected, Bool.false_eq_true, if_false, writeImage, Script.eval, FileTree.write_of_writable w,
      FileTree.stream?_of_writable w]
  rw [saves]
  exact eval_shown

end

theorem keepsDisk_put {place : Place} {order : ByteOrder} (w : files.Writable path.toList place) (disk : Disk) :
    KeepsDisk (files.put place (Image.encode order disk.words)) path order disk := by
  have file : (files.put place (Image.encode order disk.words)).contents? path.toList =
      some (Image.encode order disk.words) := FileTree.contents?_put w
  have decoded : Image.decode order (Image.encode order disk.words) = .ok disk.words :=
    Image.decode_encode order disk.words
  refine ⟨⟨_, file, decoded⟩, disk.length_words, ?_⟩
  intro options asked same
  subst same
  have inserted : disk? (files.put place (Image.encode options.order disk.words)) options =
      some (some { disk with writeProtected := options.writeProtected }) := by
    simp only [disk?, asked, image?_of_contents file, decoded, Except.toOption, Option.bind_some, Disk.ofImage_words,
      Option.map_some]
  refine ⟨{ disk with writeProtected := options.writeProtected }, fun n => rfl, inserted, ?_⟩
  intro program m starts
  exact Option.some.inj ((disk?_of_machine? starts).symm.trans inserted)

end

/-- **A disk survives a run.** A run whose machine is not built changes no file, and neither does one with a protected
disk. Any other run with the file of a disk writes the disk back that is in the drive at its end, also when it ran into
reserved words or caught fire, and the file keeps it for the next run. Only where an overflow ends the program there is
nothing written back. -/
theorem disk_survives_run (files : FileTree) (program : String) (cycles : Nat) (dumpState : Bool)
    (options : MachineOptions) (console : Script.Console) :
    let o := (run program cycles dumpState options).script.eval files console
    (machine? files program options = none → o.Refused files) ∧
      (options.writeProtected → o.files = files) ∧
      ∀ path, Equipped files program options path → ∃ m disk, machine? files program options = some m ∧
        diskOf? (m.afterCycles cycles) = some disk ∧
        if (m.afterCycles cycles).status = .overflowed then o.files = files ∧ o.code = Script.overflowCode
        else KeepsDisk o.files path options.order disk ∧
          o.code = if (m.afterCycles cycles).isRunning then 0 else 1 := by
  intro o
  have runs := comesTo_run files program cycles dumpState options
  refine ⟨?_, ?_, ?_⟩
  · intro unbuilt
    rw [unbuilt] at runs
    exact runs console
  · intro tab
    cases built : machine? files program options with
    | none =>
      rw [built] at runs
      exact (runs console).files
    | some m =>
      rw [built] at runs
      obtain ⟨console', same⟩ := runs console
      rw [show o = _ from same]
      exact files_ending_of_protected tab
  · intro path equipped
    obtain ⟨m, built, drive⟩ := exists_machine?_of_equipped equipped
    obtain ⟨disk, inside⟩ := Option.isSome_iff_exists.mp (isSome_diskOf?_afterCycles drive cycles)
    obtain ⟨bytes, -, file, -⟩ := equipped.file
    obtain ⟨place, writable, -⟩ := FileTree.writable_of_contents file
    rw [built] at runs
    obtain ⟨console', same⟩ := runs console
    -- the machine of the last cycle is saved, also if that cycle set it on fire
    have final : (m.runThrough cycles {}).1 = m.afterCycles cycles := m.runThrough_eq cycles {}
    refine ⟨m, disk, built, inside, ?_⟩
    rw [← final] at inside ⊢
    split
    · next leaves =>
      rw [show o = _ from same, ending, if_pos leaves]
      exact ⟨rfl, rfl⟩
    · next goesOn =>
      obtain ⟨saved, code⟩ := eval_ending dumpState console' equipped.disk equipped.writable inside writable goesOn
      refine ⟨?_, (congrArg Script.Outcome.code same).trans code⟩
      rw [show o.files = _ from (congrArg Script.Outcome.files same).trans saved]
      exact keepsDisk_put writable disk

/-- A program that writes the start of memory to sector 0 of the disk and goes on into a reserved word, and a disk with
two words on it. -/
def writing : FileTree where
  files := [(["writer.bin".toList], Image.encode .little [0x9001, 0x8a40]), (["disk.img".toList], [1, 2, 3, 4])]

/-- Its disk is put into the drive, and all files have the low bytes of words in front. -/
def diskOptions : MachineOptions where
  disk := some "disk.img"
  order := .little

/-- The file has all words of the disk behind the run, where two words were before. It is left alone if the disk is
protected, or if there is no program. -/
theorem disk_survives_run_of_writing :
    (Equipped writing "writer.bin" diskOptions "disk.img" ∧
        ∃ m disk, machine? writing "writer.bin" diskOptions = some m ∧ diskOf? (m.afterCycles 9) = some disk ∧
          KeepsDisk ((run "writer.bin" 9 false diskOptions).script.eval writing {}).files "disk.img" .little disk) ∧
      ((run "writer.bin" 9 false { diskOptions with writeProtected := true }).script.eval writing {}).files = writing ∧
      ((run "reader.bin" 9 false diskOptions).script.eval writing {}).Refused writing := by
  have equipped : Equipped writing "writer.bin" diskOptions "disk.img" :=
    { disk := rfl
      writable := rfl
      file := ⟨[1, 2, 3, 4], [0x0201, 0x0403], by decide +kernel, by decide +kernel, by decide⟩
      program := ⟨[0x9001, 0x8a40], by decide +kernel, by decide⟩ }
  have missing : program? writing "reader.bin" .little = none := by decide +kernel
  have unbuilt : machine? writing "reader.bin" diskOptions = none :=
    congrArg (Option.bind · fun image =>
      (disk? writing diskOptions).bind fun disk => (standardMachine image disk).toOption) missing
  obtain ⟨-, -, kept⟩ := disk_survives_run writing "writer.bin" 9 false diskOptions {}
  obtain ⟨m, disk, built, inside, keeps⟩ := kept "disk.img" equipped
  have runs : ((machine? writing "writer.bin" diskOptions).map fun m => (m.afterCycles 9).status) = some .running := by
    decide +kernel
  rw [built] at runs
  have runs : (m.afterCycles 9).status = .running := Option.some.inj runs
  rw [runs] at keeps
  refine ⟨⟨equipped, m, disk, built, inside, keeps.1⟩, ?_, ?_⟩
  · exact (disk_survives_run writing "writer.bin" 9 false { diskOptions with writeProtected := true } {}).2.1 rfl
  · exact (disk_survives_run writing "reader.bin" 9 false diskOptions {}).1 unbuilt

end Command

end Dcpu16
