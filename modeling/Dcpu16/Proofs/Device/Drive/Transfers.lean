import Dcpu16.Proofs.Device.Widths

/-!
# Transfers are all or nothing

A transfer command is carried out as a whole, and the head moves to the track of the sector, or it is refused, and then
nothing moves: not the words on the disk, not those in memory and not the head. Several causes of a refusal can hold at
once; the drive keeps the first one (`transfers_all_or_nothing`).
-/

namespace Dcpu16

/-- The number in A that asks for a transfer. -/
def Direction.command : Direction → Word
  | toMemory => 2
  | toDisk => 3

namespace Floppy

/-! ## What a transfer command may do -/

/-- **A transfer that is possible**: there is a disk, it is not protected if it is to be written, and both the sector on
it and the words of memory exist. -/
structure CanTransfer (f : Floppy) (way : Direction) (s : Core) : Prop where
  media : f.disk.isSome
  writable : ¬ (way = .toDisk ∧ ∃ d ∈ f.disk, d.writeProtected)
  sector : s.regs.x < 1440
  window : s.regs.y ≤ 0xfe00

/-- Why a transfer that is not possible is refused. A missing disk comes before a protected one, and that before a
sector or words that do not exist. -/
def cause (f : Floppy) (way : Direction) : TransferError :=
  match f.disk with
  | none => .noMedia
  | some d => if way = .toDisk ∧ d.writeProtected then .writeProtected else .badSector

/-- The drive with its head moved to a track. -/
def onTrack (f : Floppy) (target : Nat) : Floppy :=
  { f with track := target, seekTime := ((f.track : Int) - target).natAbs * 2400 }

/-- **A transfer that was carried out**: one sector and as many words of memory were made the same, the head is on the
track of the sector, and B says so. -/
inductive Copied (f : Floppy) (s : Core) : Direction → Floppy × Core → Prop
  | toMemory {d : Disk} {n : Fin Disk.sectors} {mem : Memory} (disk : f.disk = some d) (sector : n = s.regs.x.toNat)
      (words : mem.sectorAt s.regs.y = d.contents.block n)
      (others : ∀ q, (∀ k : Fin Disk.sectorSize, q ≠ s.regs.y + UInt16.ofNat k) → mem.read q = s.mem.read q) :
      Copied f s .toMemory (f.onTrack (s.regs.x.toNat / 18), { s with regs.b := 1, mem })
  | toDisk {d e : Disk} (disk : f.disk = some d)
      (written : e.contents = d.contents.replace s.regs.x.toNat (s.mem.sectorAt s.regs.y)) :
      Copied f s .toDisk ({ f.onTrack (s.regs.x.toNat / 18) with disk := some e }, { s with regs.b := 1 })

/-- The drive and the core behind a transfer that was refused: the cause is kept, and B says so. -/
def refusal (f : Floppy) (way : Direction) (s : Core) : Floppy × Core :=
  ({ f with error := some (f.cause way), changed := f.changed || f.error ≠ some (f.cause way) },
    { s with regs.b := 0 })

/-- **A transfer command is all or nothing.** -/
structure AllOrNothing (f : Floppy) (way : Direction) (s : Core) : Prop where
  accepted_iff : (f.interrupt s).2.regs.b = 1 ↔ f.CanTransfer way s
  accepted (possible : f.CanTransfer way s) : f.Copied s way (f.interrupt s)
  refused (impossible : ¬ f.CanTransfer way s) : f.interrupt s = f.refusal way s

/-! ## Commands -/

section
variable {f : Floppy} {way : Direction} {s : Core}

theorem interrupt_of_command (h : s.regs.a = way.command) : f.interrupt s = f.command way s := by
  cases way <;> simp only [interrupt, h, Direction.command]

theorem seek_eq (sector : Nat) : f.seek sector = f.onTrack (sector / 18) := by
  have distance (m n : Nat) : max m n - min m n = ((m : Int) - n).natAbs := by omega
  simp only [seek, onTrack, distance]
  rfl

theorem canTransfer_iff : f.CanTransfer way s ↔ ∃ d data, f.Ready way s d data := by
  have sector (d : Disk) : (d.sector? s.regs.x.toNat).isSome ↔ s.regs.x < 1440 := d.sector?_isSome_iff _
  have window : s.regs.y.toNat + Disk.sectorSize ≤ Word.count ↔ s.regs.y ≤ 0xfe00 := by
    show s.regs.y.toNat + 512 ≤ 0x10000 ↔ s.regs.y.toNat ≤ 0xfe00
    omega
  constructor
  · intro h
    obtain ⟨d, disk⟩ := Option.isSome_iff_exists.mp h.media
    obtain ⟨data, found⟩ := Option.isSome_iff_exists.mp ((sector d).mpr h.sector)
    refine ⟨d, data, disk, fun write => ?_, found, window.mpr h.window⟩
    exact Bool.eq_false_iff.mpr fun tab => h.writable ⟨write, d, disk, tab⟩
  · rintro ⟨d, data, ready⟩
    refine ⟨Option.isSome_of_eq_some ready.disk, ?_, (sector d).mp (Option.isSome_of_eq_some ready.sector),
      window.mp ready.window⟩
    rintro ⟨write, e, disk, tab⟩
    cases ready.disk.symm.trans disk
    cases (ready.writable write).symm.trans tab

/-- What is refused is refused for the first cause that holds. -/
theorem transfer_of_error {e : TransferError} (h : f.transfer way s = .error e) : e = f.cause way := by
  unfold transfer at h
  unfold cause
  cases disk : f.disk with
  | none =>
    rw [disk] at h
    exact (Except.error.inj h).symm
  | some d =>
    rw [disk] at h
    by_cases tab : way = .toDisk ∧ d.writeProtected
    · simp only [if_pos tab] at h ⊢
      exact (Except.error.inj h).symm
    · simp only [if_neg tab] at h ⊢
      split at h
      · cases way <;> cases h
      · exact (Except.error.inj h).symm

theorem command_of_not_canTransfer (h : ¬ f.CanTransfer way s) : f.command way s = f.refusal way s := by
  rcases ready_or_refused f way s with ready | ⟨e, refused⟩
  · exact absurd (canTransfer_iff.mpr ready) h
  · rw [command, refused, transfer_of_error refused]
    simp only [latch_eq, refusal]

theorem copied_of_canTransfer (h : f.CanTransfer way s) : f.Copied s way (f.command way s) := by
  obtain ⟨d, data, ready⟩ := canTransfer_iff.mp h
  rw [command, transfer_of_ready ready]
  cases way with
  | toMemory =>
    obtain ⟨n, sector, words⟩ : ∃ n : Fin Disk.sectors, n = s.regs.x.toNat ∧
        (s.mem.writeFrom s.regs.y data).sectorAt s.regs.y = d.contents.block n :=
      Memory.sectorAt_writeFrom ready.sector ready.window
    simp only [seek_eq]
    exact .toMemory ready.disk sector words fun q => Memory.read_writeFrom_of_outside ready.sector ready.window
  | toDisk =>
    simp only [seek_eq]
    exact .toDisk ready.disk Disk.contents_writeSector

theorem Copied.answer {g : Floppy} {t : Core} (h : f.Copied s way (g, t)) : t.regs = { s.regs with b := 1 } := by
  cases h <;> rfl

theorem allOrNothing (h : s.regs.a = way.command) : f.AllOrNothing way s := by
  have possible : f.CanTransfer way s → f.Copied s way (f.interrupt s) :=
    interrupt_of_command h ▸ copied_of_canTransfer
  have impossible : ¬ f.CanTransfer way s → f.interrupt s = f.refusal way s :=
    interrupt_of_command h ▸ command_of_not_canTransfer
  refine ⟨⟨fun yes => ?_, fun can => congrArg Registers.b (possible can).answer⟩, possible, impossible⟩
  by_contra can
  rw [impossible can] at yes
  cases yes

/-! ## The head -/

/-- The head of a drive stays on the tracks of a disk, whatever is done. -/
theorem track_performAll (h : f.track < 80) (calls : List DriveCall) : (f.performAll calls).track < 80 := by
  induction calls generalizing f with
  | nil => exact h
  | cons call calls ih =>
    apply ih
    cases call with
    | interrupt s => exact (f.response s).track_lt h
    | insert | eject | cycle => exact h

end

/-- **Transfers are all or nothing.** A read or write command is accepted just if it is possible. Then the words are
copied and the head moves to the track of the sector. Otherwise disk, memory and head stay as they were and the first
cause is kept. No register but B changes. Whatever is done to a new drive, its head stays on the 80 tracks. -/
theorem transfers_all_or_nothing :
    (∀ (f : Floppy) (way : Direction) (s : Core), s.regs.a = way.command → f.AllOrNothing way s) ∧
      ∀ (disk : Option Disk) (calls : List DriveCall), (({ disk } : Floppy).performAll calls).track < 80 :=
  ⟨fun _ _ _ => allOrNothing, fun _ calls => track_performAll (Nat.zero_lt_succ 79) calls⟩

/-- A write to a protected disk, of a sector that it does not have and from words that end behind the memory. -/
theorem transfers_all_or_nothing_of_protected :
    (({ disk := some (Disk.blank true), track := 7 } : Floppy).interrupt
        { regs := { a := 3, b := 9, x := 1440, y := 0xfe01 } }) =
      ({ disk := some (Disk.blank true), error := some .writeProtected, changed := true, track := 7 },
        { regs := { a := 3, b := 0, x := 1440, y := 0xfe01 } }) := by
  let f : Floppy := { disk := some (Disk.blank true), track := 7 }
  let s : Core := { regs := { a := 3, b := 9, x := 1440, y := 0xfe01 } }
  have whole : f.AllOrNothing .toDisk s := transfers_all_or_nothing.1 f .toDisk s rfl
  have impossible : ¬ f.CanTransfer .toDisk s := fun can => can.writable ⟨rfl, Disk.blank true, rfl, rfl⟩
  exact whole.refused impossible

end Floppy

end Dcpu16
