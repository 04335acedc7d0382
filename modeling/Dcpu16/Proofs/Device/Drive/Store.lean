import Dcpu16.Proofs.Device.Drive

/-!
# A floppy drive stores sectors

Seen from outside a disk is a map from sector numbers to blocks of words, with a tab that protects it. What a drive
stores follows from what was asked of it and what it answered: an accepted write command replaces the block of one
sector by words of memory, an accepted read command puts the block of one sector into memory, and only a change of the
disk by hand does more (`drive_stores_sectors`).
-/

namespace Dcpu16

/-! ## What a disk stores -/

namespace Disk

/-- **What a disk stores**: a block of words in every sector, and whether it is protected from being written. -/
structure Contents where
  block : Fin sectors → Fin sectorSize → Word
  writeProtected : Bool

/-- What a disk stores. -/
def contents (d : Disk) : Contents := ⟨fun n k => d.blocks[n][k], d.writeProtected⟩

/-- The contents with another block in one sector. -/
def Contents.replace (c : Contents) (n : Nat) (block : Fin sectorSize → Word) : Contents :=
  { c with block := fun m => if m = n then block else c.block m }

/-- A disk is nothing but what it stores. -/
theorem contents_inj {d e : Disk} : d.contents = e.contents ↔ d = e := by
  refine ⟨?_, congrArg contents⟩
  intro same
  obtain ⟨blocks, tab⟩ := Contents.mk.inj same
  obtain ⟨u, p⟩ := d
  obtain ⟨v, q⟩ := e
  have blocks : u = v := by
    refine Vector.ext fun n hn => Vector.ext fun k hk => ?_
    exact congrFun (congrFun blocks ⟨n, hn⟩) ⟨k, hk⟩
  rw [blocks, show p = q from tab]

end Disk

/-- The words of memory from an address on, one for each word of a sector. -/
def Memory.sectorAt (mem : Memory) (p : Word) (k : Fin Disk.sectorSize) : Word := mem.read (p + UInt16.ofNat k)

section
variable {d : Disk} {mem : Memory} {p : Word} {n : Nat} {data : List Word}

theorem Disk.contents_writeSector :
    (d.writeSector n (mem.block p sectorSize)).contents = d.contents.replace n (mem.sectorAt p) := by
  have written (old : Vector Word sectorSize) (k : Fin sectorSize) :
      (overwrite old 0 (mem.block p sectorSize))[k] = mem.sectorAt p k := by
    rw [Fin.getElem_fin, getElem_overwrite _ _ _ _ k.isLt, if_pos (Nat.zero_le _)]
    simp [Memory.block, Memory.sectorAt]
  rw [writeSector_eq_overwriteBlock]
  by_cases hn : n < sectors
  · simp only [overwriteBlock, Vector.getElem?_eq_getElem hn, contents, Contents.replace]
    congr 1
    funext m k
    by_cases same : (m : Nat) = n
    · subst same
      rw [if_pos rfl, ← written d.blocks[m] k]
      simp
    · rw [if_neg same]
      simp [Ne.symm same]
  · have out : d.blocks[n]? = none := by simp [hn]
    have other (m : Fin sectors) : (m : Nat) ≠ n := fun same => hn (same ▸ m.isLt)
    simp only [overwriteBlock, out, contents, Contents.replace, other, if_false]

namespace Memory

theorem eq_ofNat_toNat_add (p : Word) (k : Nat) : p + UInt16.ofNat k = UInt16.ofNat (p.toNat + k) := by
  rw [UInt16.ofNat_add, UInt16.ofNat_toNat]

/-- The words of a sector that are put into memory are those that it stores. -/
theorem sectorAt_writeFrom (sector : d.sector? n = some data) (window : p.toNat + Disk.sectorSize ≤ Word.count) :
    ∃ m : Fin Disk.sectors, m = n ∧ (mem.writeFrom p data).sectorAt p = d.contents.block m := by
  have window : p.toNat + 512 ≤ 0x10000 := window
  rw [Disk.sector?_eq_block] at sector
  obtain ⟨block, present, rfl⟩ := Option.map_eq_some_iff.mp sector
  obtain ⟨hn, rfl⟩ := Vector.getElem?_eq_some_iff.mp present
  refine ⟨⟨n, hn⟩, rfl, funext fun k => ?_⟩
  have inside : (k : Nat) < 512 := k.isLt
  have size : p.toNat + d.blocks[n].toList.length ≤ 0x10000 := by rw [Vector.length_toList]; exact window
  have word := mem.read_writeFrom size (q := p.toNat + k) (by omega)
  rw [← eq_ofNat_toNat_add, UInt16.ofNat_toNat, if_pos (Nat.le_add_right ..), Nat.add_sub_cancel_left] at word
  rw [sectorAt, word]
  simp [Disk.contents]

/-- No other word of memory changes. -/
theorem read_writeFrom_of_outside (sector : d.sector? n = some data)
    (window : p.toNat + Disk.sectorSize ≤ Word.count) {q : Word}
    (outside : ∀ k : Fin Disk.sectorSize, q ≠ p + UInt16.ofNat k) : (mem.writeFrom p data).read q = mem.read q := by
  have length : data.length = 512 := Disk.length_sector sector
  have size : p.toNat + data.length ≤ 0x10000 := by rw [length]; exact window
  have word := mem.read_writeFrom size q.toNat_lt
  rw [UInt16.ofNat_toNat, UInt16.ofNat_toNat] at word
  rw [word]
  split
  · next above =>
    have behind : data.length ≤ q.toNat - p.toNat := by
      refine Nat.le_of_not_lt fun inside => outside ⟨q.toNat - p.toNat, Nat.lt_of_lt_of_eq inside length⟩ ?_
      rw [eq_ofNat_toNat_add, Nat.add_sub_cancel' above, UInt16.ofNat_toNat]
    rw [List.getElem?_eq_none behind, Option.getD_none]
  · rfl

end Memory

end

/-! ## What is seen of a drive from outside -/

/-- A call of a drive and its answer. -/
inductive DriveEvent
  | interrupt (asked answered : Core)
  | insert (d : Disk) (returned : Option Disk)
  | eject (returned : Option Disk)
  | cycle (raised : Option Word)

namespace DriveEvent

/-- The command number `a` was accepted. -/
def Accepted (a : Word) (asked answered : Core) : Prop := asked.regs.a = a ∧ answered.regs.b = 1

instance (a : Word) (asked answered : Core) : Decidable (Accepted a asked answered) := inferInstanceAs (Decidable (_ ∧ _))

/-- What is stored behind an event: an accepted write command (3) replaces sector X by the words at Y, and a disk that
is inserted or ejected takes what it stores with it. -/
def replay (stored : Option Disk.Contents) : DriveEvent → Option Disk.Contents
  | interrupt asked answered =>
    if Accepted 3 asked answered then
      stored.map fun c => c.replace asked.regs.x.toNat (asked.mem.sectorAt asked.regs.y)
    else stored
  | insert d _ => some d.contents
  | eject _ => none
  | cycle _ => stored

end DriveEvent

namespace Floppy

open DriveEvent

/-- What the disk in the drive stores. -/
def stored (f : Floppy) : Option Disk.Contents := f.disk.map Disk.contents

/-- A call with the answer of the drive. -/
def event (f : Floppy) : DriveCall → DriveEvent
  | .interrupt s => .interrupt s (f.interrupt s).2
  | .insert d => .insert d (f.insert d).2
  | .eject => .eject f.eject.2
  | .cycle => .cycle f.cycle.2

/-- Calls with the answers of the drive. -/
def history (f : Floppy) : List DriveCall → List DriveEvent
  | [] => []
  | call :: calls => f.event call :: (f.perform call).history calls

/-- **How a drive moves words**, and that it moves no others. -/
structure Moves (f : Floppy) : Prop where
  /-- An accepted write finds a disk that is not protected, sector X on it and memory at Y. -/
  write {s : Core} (accepted : Accepted 3 s (f.interrupt s).2) :
    ∃ c, f.stored = some c ∧ c.writeProtected = false ∧ s.regs.x.toNat < 1440 ∧ s.regs.y.toNat + 511 ≤ 0xffff
  /-- An accepted read puts sector X into the words at Y, which all lie before the end of memory, and changes no other.
  -/
  read {s : Core} (accepted : Accepted 2 s (f.interrupt s).2) :
    s.regs.y.toNat + 511 ≤ 0xffff ∧
      (∃ c, ∃ n : Fin Disk.sectors, f.stored = some c ∧ n = s.regs.x.toNat ∧
        (f.interrupt s).2.mem.sectorAt s.regs.y = c.block n) ∧
      ∀ q, (∀ k : Fin Disk.sectorSize, q ≠ s.regs.y + UInt16.ofNat k) → (f.interrupt s).2.mem.read q = s.mem.read q
  /-- Only an accepted write changes the disk in the drive. -/
  disk {s : Core} (other : ¬ Accepted 3 s (f.interrupt s).2) : (f.interrupt s).1.disk = f.disk
  /-- Only an accepted read changes memory. -/
  memory {s : Core} (other : ¬ Accepted 2 s (f.interrupt s).2) : (f.interrupt s).2.mem = s.mem
  cycle : f.cycle.1.disk = f.disk
  /-- The disk that was in the drive comes out as it was. -/
  insert (d : Disk) : (f.insert d).2 = f.disk ∧ (f.insert d).1.disk = some d
  eject : f.eject.2 = f.disk ∧ f.eject.1.disk = none

section
variable {f g : Floppy} {s t : Core}

/-- An accepted write had what it needs, and replaces its sector. -/
theorem Response.write_of_accepted (h : f.Response s g t) (accepted : Accepted 3 s t) :
    ∃ d data, f.Ready .toDisk s d data ∧
      g.disk = some (d.writeSector s.regs.x.toNat (s.mem.block s.regs.y Disk.sectorSize)) := by
  obtain ⟨three, yes⟩ := accepted
  cases h with
  | write _ ready => exact ⟨_, _, ready, rfl⟩
  | refused _ e => cases yes
  | poll command | message command | read command _ => cases command.symm.trans three
  | unknown command => exact absurd three (command 3 (by decide))

/-- An accepted read had what it needs, and writes its sector to memory. -/
theorem Response.read_of_accepted (h : f.Response s g t) (accepted : Accepted 2 s t) :
    ∃ d data, f.Ready .toMemory s d data ∧ t.mem = s.mem.writeFrom s.regs.y data := by
  obtain ⟨two, yes⟩ := accepted
  cases h with
  | read _ ready => exact ⟨_, _, ready, rfl⟩
  | refused _ e => cases yes
  | poll command | message command | write command _ => cases command.symm.trans two
  | unknown command => exact absurd two (command 2 (by decide))

theorem Response.disk_of_other (h : f.Response s g t) (other : ¬ Accepted 3 s t) : g.disk = f.disk := by
  cases h with
  | write command _ => exact absurd ⟨command, rfl⟩ other
  | poll | refused => rw [latch_eq]
  | message | read | unknown => rfl

theorem Response.mem_of_other (h : f.Response s g t) (other : ¬ Accepted 2 s t) : t.mem = s.mem := by
  cases h with
  | read command _ => exact absurd ⟨command, rfl⟩ other
  | poll | message | write | refused | unknown => rfl

theorem stored_of_ready {d : Disk} {data : List Word} {way : Direction} (h : f.Ready way s d data) :
    f.stored = some d.contents := congrArg (Option.map Disk.contents) h.disk

theorem moves (f : Floppy) : f.Moves where
  write {s} accepted := by
    obtain ⟨d, data, ready, -⟩ := (f.response s).write_of_accepted accepted
    have sector := (d.sector?_isSome_iff _).mp (Option.isSome_of_eq_some ready.sector)
    have window : s.regs.y.toNat + 512 ≤ 0x10000 := ready.window
    exact ⟨d.contents, stored_of_ready ready, ready.writable rfl, sector, by omega⟩
  read {s} accepted := by
    obtain ⟨d, data, ready, mem⟩ := (f.response s).read_of_accepted accepted
    have window : s.regs.y.toNat + 512 ≤ 0x10000 := ready.window
    obtain ⟨n, sector, words⟩ := Memory.sectorAt_writeFrom ready.sector ready.window
    rw [mem]
    exact ⟨by omega, ⟨d.contents, n, stored_of_ready ready, sector, words⟩,
      fun q outside => Memory.read_writeFrom_of_outside ready.sector ready.window outside⟩
  disk {s} := (f.response s).disk_of_other
  memory {s} := (f.response s).mem_of_other
  cycle := rfl
  insert _ := ⟨rfl, rfl⟩
  eject := ⟨rfl, rfl⟩

/-- What is stored behind a call is what its answer says. -/
theorem stored_perform (call : DriveCall) : (f.perform call).stored = (f.event call).replay f.stored := by
  cases call with
  | interrupt s =>
    simp only [perform, event, replay]
    split
    · next accepted =>
      obtain ⟨d, data, ready, disk⟩ := (f.response s).write_of_accepted accepted
      rw [stored_of_ready ready, stored, disk, Option.map_some, Disk.contents_writeSector]
      rfl
    · next other => rw [stored, (f.response s).disk_of_other other, stored]
  | insert d => rfl
  | eject => rfl
  | cycle => rfl

end

/-- **A drive stores sectors.** Whatever is done to it, the disk in it stores what it stored at first, or when it was
inserted, with the sectors replaced that accepted write commands named since, by the words of memory that they named,
and it is the only disk that does. The commands of the drive move words in this way only. -/
theorem drive_stores_sectors (f : Floppy) (calls : List DriveCall) :
    (f.performAll calls).stored = (f.history calls).foldl replay f.stored ∧
      (∀ d : Disk, (f.history calls).foldl replay f.stored = some d.contents → (f.performAll calls).disk = some d) ∧
      (f.performAll calls).Moves := by
  have stores : (f.performAll calls).stored = (f.history calls).foldl replay f.stored := by
    induction calls generalizing f with
    | nil => rfl
    | cons call calls ih =>
      rw [history, List.foldl_cons, ← stored_perform]
      exact ih (f.perform call)
  refine ⟨stores, ?_, moves _⟩
  intro d same
  obtain ⟨e, inside, contents⟩ := Option.map_eq_some_iff.mp (stores.trans same)
  rw [inside, Disk.contents_inj.mp contents]

end Floppy

end Dcpu16
