import Dcpu16.Proofs.Device.Drive.Transfers

/-!
# Devices stay inside their contract

A device that handles an interrupt is given all registers and all of memory. What it writes are words in B and C, and a
floppy drive also the words of a sector; what it goes by are A, X and Y, and a floppy drive also the words that it puts
on its disk (`keeps_contract`). So no interrupt moves PC, SP or IA under the running program.
-/

namespace Dcpu16

/-! ## Writes -/

/-- Words written to a core: into the registers B and C and into memory. Where there is none, nothing is written. -/
structure Writes where
  b : Option Word := none
  c : Option Word := none
  word : Word → Option Word := fun _ => none

/-- The registers with what is written into them. -/
def Writes.into (w : Writes) (regs : Registers) : Registers := { regs with b := w.b.getD regs.b, c := w.c.getD regs.c }

/-- **The second core is the first one with what is written**, and differs in nothing else. -/
structure Writes.Between (w : Writes) (s t : Core) : Prop where
  regs : t.regs = w.into s.regs
  mem (p : Word) : t.mem.read p = (w.word p).getD (s.mem.read p)

/-! ## The contract -/

namespace Device

/-- The commands that a device knows. -/
def commands : Device → List Word
  | clock _ => [0, 1, 2]
  | floppy _ => [0, 1, 2, 3]
  | display _ => [0, 1, 2]

/-- The device is a drive that is asked for a transfer and accepts. -/
def Accepts (way : Direction) (dev : Device) (s : Core) : Prop :=
  match dev with
  | floppy f => s.regs.a = way.command ∧ (f.interrupt s).2.regs.b = 1
  | _ => False

/-- **What a device may write**: a clock nothing into B, and only a drive that accepts to read into memory, into the
words from Y on. -/
structure MayWrite (dev : Device) (s : Core) (w : Writes) : Prop where
  clock {c : Clock} (h : dev = .clock c) : w.b = none
  memory {p : Word} (written : w.word p ≠ none) :
    dev.Accepts .toMemory s ∧ s.regs.y.toNat ≤ p.toNat ∧ p.toNat ≤ s.regs.y.toNat + 511

/-- **All that a device may go by is the same in two cores**: A, X and Y, and the words that a drive accepts to write to
its disk. -/
structure Alike (dev : Device) (s t : Core) : Prop where
  a : s.regs.a = t.regs.a
  x : s.regs.x = t.regs.x
  y : s.regs.y = t.regs.y
  words (accepted : dev.Accepts .toDisk s) : s.mem.sectorAt s.regs.y = t.mem.sectorAt t.regs.y

/-- A device becomes the same in two cores and writes the same words to the same places, where it may. -/
def ActsAlike (dev : Device) (s t : Core) : Prop :=
  (dev.interrupt s).1 = (dev.interrupt t).1 ∧
    ∃ w, dev.MayWrite s w ∧ w.Between s (dev.interrupt s).2 ∧ w.Between t (dev.interrupt t).2

/-- **The contract of a device.** -/
structure KeepsContract (dev : Device) : Prop where
  writes (s : Core) : ∃ w, dev.MayWrite s w ∧ w.Between s (dev.interrupt s).2
  unknown {s : Core} (h : s.regs.a ∉ dev.commands) : dev.interrupt s = (dev, s)
  alike {s t : Core} (h : dev.Alike s t) : dev.ActsAlike s t

end Device

section
variable {s t : Core} {dev next : Device} {w : Writes}

theorem Device.MayWrite.of_registers (nothing : w.word = fun _ => none) (clock : ∀ c, dev = .clock c → w.b = none) :
    dev.MayWrite s w := ⟨clock _, fun written => absurd (congrFun nothing _) written⟩

/-- Two cores in which a device writes to registers only. -/
theorem Device.actsAlike_of_registers (nothing : w.word = fun _ => none) (clock : ∀ c, dev = .clock c → w.b = none)
    (hs : dev.interrupt s = (next, { s with regs := w.into s.regs }))
    (ht : dev.interrupt t = (next, { t with regs := w.into t.regs })) : dev.ActsAlike s t := by
  have between (s : Core) : w.Between s { s with regs := w.into s.regs } := ⟨rfl, fun p => by rw [nothing]; rfl⟩
  refine ⟨by rw [hs, ht], w, .of_registers nothing clock, ?_, ?_⟩
  · rw [hs]
    exact between s
  · rw [ht]
    exact between t

/-! ## Clocks and displays -/

namespace Clock

variable {c : Clock}

/-- What a clock writes for a command: the ticks. -/
def writes (c : Clock) (command : Word) : Writes :=
  { c := if command = 1 then some (if c.period = 0 then 0 else c.ticks) else none }

theorem regs_interrupt (c : Clock) (regs : Registers) : (c.interrupt regs).2 = (c.writes regs.a).into regs := by
  have silent (h : regs.a ≠ 1) : regs = (c.writes regs.a).into regs := by
    rw [writes, if_neg h]
    rfl
  unfold interrupt
  split
  · next period => exact silent (by rw [period]; decide)
  · next read =>
    rw [writes, if_pos read]
    rfl
  · next message => exact silent (by rw [message]; decide)
  · next other _ => exact silent other

theorem interrupt_congr (a : s.regs.a = t.regs.a) (x : s.regs.x = t.regs.x) :
    (c.interrupt s.regs).1 = (c.interrupt t.regs).1 := by
  simp only [interrupt, a, x]
  split <;> rfl

theorem interrupt_of_unknown {regs : Registers} (h : regs.a ∉ [0, 1, 2]) : c.interrupt regs = (c, regs) := by
  unfold interrupt
  split <;> simp_all

theorem actsAlike (h : (Device.clock c).Alike s t) : (Device.clock c).ActsAlike s t := by
  have acts (s : Core) : (Device.clock c).interrupt s =
      (.clock (c.interrupt s.regs).1, { s with regs := (c.writes s.regs.a).into s.regs }) := by
    rw [← regs_interrupt]
    rfl
  refine Device.actsAlike_of_registers rfl (fun _ _ => rfl) (acts s) ?_
  rw [h.a, interrupt_congr h.a h.x]
  exact acts t

end Clock

namespace Display

variable {d : Display}

/-- What a display writes for a command: its state and whether it is broken. -/
def writes (d : Display) (command : Word) : Writes :=
  if command = 0 then { b := some d.state, c := some (if d.broken then 0xffff else 0) } else {}

theorem word_writes (d : Display) (command : Word) : (d.writes command).word = fun _ => none := by
  unfold writes
  split <;> rfl

theorem regs_interrupt (d : Display) (regs : Registers) : (d.interrupt regs).2 = (d.writes regs.a).into regs := by
  have silent (h : regs.a ≠ 0) : regs = (d.writes regs.a).into regs := by
    rw [writes, if_neg h]
    rfl
  unfold interrupt
  split
  · next poll =>
    rw [writes, if_pos poll]
    rfl
  · next map => split <;> exact silent (by rw [map]; decide)
  · next turn => exact silent (by rw [turn]; decide)
  · next other _ _ => exact silent other

theorem interrupt_congr (a : s.regs.a = t.regs.a) (x : s.regs.x = t.regs.x) (y : s.regs.y = t.regs.y) :
    (d.interrupt s.regs).1 = (d.interrupt t.regs).1 := by
  simp only [interrupt, a, x, y]
  split
  · rfl
  · split <;> rfl
  · rfl
  · rfl

theorem interrupt_of_unknown {regs : Registers} (h : regs.a ∉ [0, 1, 2]) : d.interrupt regs = (d, regs) := by
  unfold interrupt
  split <;> simp_all

theorem actsAlike (h : (Device.display d).Alike s t) : (Device.display d).ActsAlike s t := by
  have acts (s : Core) : (Device.display d).interrupt s =
      (.display (d.interrupt s.regs).1, { s with regs := (d.writes s.regs.a).into s.regs }) := by
    rw [← regs_interrupt]
    rfl
  refine Device.actsAlike_of_registers (word_writes d _) nofun (acts s) ?_
  rw [h.a, interrupt_congr h.a h.x h.y]
  exact acts t

end Display

/-! ## Drives -/

namespace Floppy

variable {f : Floppy} {way : Direction} {d : Disk} {data : List Word}

theorem interrupt_of_poll (h : s.regs.a = 0) :
    f.interrupt s = (f.latch none, { s with regs := { s.regs with b := f.state, c := f.errorCode } }) := by
  rw [interrupt, h]
  rfl

theorem interrupt_of_message (h : s.regs.a = 1) : f.interrupt s = ({ f with message := s.regs.x }, s) := by
  rw [interrupt, h]
  rfl

theorem interrupt_of_unknown (h : s.regs.a ∉ [0, 1, 2, 3]) : f.interrupt s = (f, s) := by
  unfold interrupt
  split <;> simp_all

theorem interrupt_of_ready (h : s.regs.a = way.command) (ready : f.Ready way s d data) :
    f.interrupt s = match way with
      | .toMemory => (f.seek s.regs.x.toNat, { s with regs.b := 1, mem := s.mem.writeFrom s.regs.y data })
      | .toDisk =>
        ({ f.seek s.regs.x.toNat with
            disk := some (d.writeSector s.regs.x.toNat (s.mem.block s.regs.y Disk.sectorSize)) },
          { s with regs.b := 1 }) := by
  rw [interrupt_of_command h, command, transfer_of_ready ready]
  cases way <;> rfl

/-- Whether a transfer is possible depends on X and Y only. -/
theorem Ready.congr (ready : f.Ready way s d data) (x : s.regs.x = t.regs.x) (y : s.regs.y = t.regs.y) :
    f.Ready way t d data := ⟨ready.disk, ready.writable, x ▸ ready.sector, y ▸ ready.window⟩

theorem CanTransfer.congr (can : f.CanTransfer way s) (x : s.regs.x = t.regs.x) (y : s.regs.y = t.regs.y) :
    f.CanTransfer way t := ⟨can.media, can.writable, x ▸ can.sector, y ▸ can.window⟩

/-- What is written for an accepted read command: the sector into the words from an address on. -/
def readWrites (p : Word) (data : List Word) : Writes :=
  { b := some 1, word := fun q => if p.toNat ≤ q.toNat then data[q.toNat - p.toNat]? else none }

theorem between_readWrites (ready : f.Ready .toMemory s d data) :
    (readWrites s.regs.y data).Between s { s with regs.b := 1, mem := s.mem.writeFrom s.regs.y data } where
  regs := rfl
  mem q := by
    have length : data.length = 512 := Disk.length_sector ready.sector
    have window : s.regs.y.toNat + 512 ≤ 0x10000 := ready.window
    have size : s.regs.y.toNat + data.length ≤ 0x10000 := by rw [length]; exact window
    have word := s.mem.read_writeFrom size q.toNat_lt
    rw [UInt16.ofNat_toNat, UInt16.ofNat_toNat] at word
    rw [word]
    simp only [readWrites]
    split <;> rfl

theorem mayWrite_readWrites (h : s.regs.a = Direction.toMemory.command) (ready : f.Ready .toMemory s d data) :
    (Device.floppy f).MayWrite s (readWrites s.regs.y data) where
  clock := nofun
  memory {p} written := by
    have length : data.length = 512 := Disk.length_sector ready.sector
    have accepted : (f.interrupt s).2.regs.b = 1 := by rw [interrupt_of_ready h ready]
    have low : s.regs.y.toNat ≤ p.toNat := by
      by_contra below
      exact written (if_neg below)
    have high : p.toNat - s.regs.y.toNat < data.length := by
      by_contra behind
      exact written ((if_pos low).trans (List.getElem?_eq_none (Nat.le_of_not_lt behind)))
    exact ⟨⟨h, accepted⟩, low, by omega⟩

/-- Two cores in which a drive writes to registers only. -/
theorem actsAlike_of_registers {g : Floppy} (nothing : w.word = fun _ => none)
    (hs : f.interrupt s = (g, { s with regs := w.into s.regs }))
    (ht : f.interrupt t = (g, { t with regs := w.into t.regs })) : (Device.floppy f).ActsAlike s t :=
  have attached {s : Core} {r : Floppy × Core} (h : f.interrupt s = r) :
      (Device.floppy f).interrupt s = (.floppy r.1, r.2) := h ▸ rfl
  Device.actsAlike_of_registers nothing nofun (attached hs) (attached ht)

theorem actsAlike_of_read (read : s.regs.a = Direction.toMemory.command) (h : (Device.floppy f).Alike s t)
    (ready : f.Ready .toMemory s d data) : (Device.floppy f).ActsAlike s t := by
  have ready' : f.Ready .toMemory t d data := ready.congr h.x h.y
  have acts := interrupt_of_ready read ready
  have acts' := interrupt_of_ready (h.a.symm.trans read) ready'
  refine ⟨?_, readWrites s.regs.y data, mayWrite_readWrites read ready, ?_, ?_⟩
  · simp only [Device.interrupt, acts, acts', h.x]
  · simp only [Device.interrupt, acts]
    exact between_readWrites ready
  · simp only [Device.interrupt, acts', h.y]
    exact between_readWrites ready'

theorem actsAlike_of_write (write : s.regs.a = Direction.toDisk.command) (h : (Device.floppy f).Alike s t)
    (ready : f.Ready .toDisk s d data) : (Device.floppy f).ActsAlike s t := by
  have acts := interrupt_of_ready write ready
  have acts' := interrupt_of_ready (h.a.symm.trans write) (ready.congr h.x h.y)
  have accepted : (f.interrupt s).2.regs.b = 1 := by rw [acts]
  have same : d.writeSector s.regs.x.toNat (s.mem.block s.regs.y Disk.sectorSize) =
      d.writeSector t.regs.x.toNat (t.mem.block t.regs.y Disk.sectorSize) := by
    rw [← Disk.contents_inj, Disk.contents_writeSector, Disk.contents_writeSector, h.words ⟨write, accepted⟩, h.x]
  rw [← same, ← h.x] at acts'
  exact actsAlike_of_registers (w := { b := some 1 }) rfl acts acts'

theorem actsAlike_of_refused (command : s.regs.a = way.command) (h : (Device.floppy f).Alike s t)
    (impossible : ¬ f.CanTransfer way s) : (Device.floppy f).ActsAlike s t := by
  have impossible' : ¬ f.CanTransfer way t := fun can => impossible (can.congr h.x.symm h.y.symm)
  have acts {s : Core} (command : s.regs.a = way.command) (impossible : ¬ f.CanTransfer way s) :
      f.interrupt s = f.refusal way s :=
    (interrupt_of_command command).trans (command_of_not_canTransfer impossible)
  exact actsAlike_of_registers (w := { b := some 0 }) rfl (acts command impossible)
    (acts (h.a.symm.trans command) impossible')

theorem actsAlike_of_command (command : s.regs.a = way.command) (h : (Device.floppy f).Alike s t) :
    (Device.floppy f).ActsAlike s t := by
  by_cases possible : f.CanTransfer way s
  · obtain ⟨d, data, ready⟩ := canTransfer_iff.mp possible
    cases way with
    | toMemory => exact actsAlike_of_read command h ready
    | toDisk => exact actsAlike_of_write command h ready
  · exact actsAlike_of_refused command h possible

theorem actsAlike (h : (Device.floppy f).Alike s t) : (Device.floppy f).ActsAlike s t := by
  by_cases known : s.regs.a ∈ [0, 1, 2, 3]
  · simp only [List.mem_cons, List.not_mem_nil, or_false] at known
    rcases known with poll | message | read | write
    · exact actsAlike_of_registers (w := { b := some f.state, c := some f.errorCode }) rfl (interrupt_of_poll poll)
        (interrupt_of_poll (h.a.symm.trans poll))
    · have acts' := interrupt_of_message (f := f) (h.a.symm.trans message)
      rw [← h.x] at acts'
      exact actsAlike_of_registers (w := {}) rfl (interrupt_of_message message) acts'
    · exact actsAlike_of_command (show s.regs.a = Direction.toMemory.command from read) h
    · exact actsAlike_of_command (show s.regs.a = Direction.toDisk.command from write) h
  · exact actsAlike_of_registers (w := {}) rfl (interrupt_of_unknown known) (interrupt_of_unknown (h.a ▸ known))

end Floppy

/-! ## All devices -/

namespace Device

theorem actsAlike (h : dev.Alike s t) : dev.ActsAlike s t := by
  cases dev with
  | clock c => exact Clock.actsAlike h
  | floppy f => exact Floppy.actsAlike h
  | display d => exact Display.actsAlike h

theorem interrupt_of_unknown (h : s.regs.a ∉ dev.commands) : dev.interrupt s = (dev, s) := by
  cases dev with
  | clock c => rw [interrupt, Clock.interrupt_of_unknown h]
  | floppy f => rw [interrupt, Floppy.interrupt_of_unknown h]
  | display d => rw [interrupt, Display.interrupt_of_unknown h]

end Device

end

/-- **Devices stay inside their contract.** An interrupt changes B and C only, and for a clock only C, and words of
memory only if it is a read command that a drive accepts, from Y to Y + 511. A command that the device does not know
changes nothing. Wherever A, X and Y are the same, and the words that are written to a disk, the device becomes the same
and writes the same, whatever else the registers and memory hold. -/
theorem Device.keeps_contract (dev : Device) : dev.KeepsContract where
  writes s := by
    obtain ⟨-, w, may, between, -⟩ := actsAlike (s := s) (t := s) ⟨rfl, rfl, rfl, fun _ => rfl⟩
    exact ⟨w, may, between⟩
  unknown := interrupt_of_unknown
  alike := actsAlike

/-- Two cores with different programs, of which a drive is asked to write the same words to its disk. -/
theorem Device.keeps_contract_of_writing :
    let dev : Device := .floppy { disk := some (Disk.blank false) }
    let s : Core := { regs := { a := 3, x := 1439, pc := 0x100 } }
    let t : Core := { regs := { a := 3, x := 1439, pc := 0x8000, sp := 0xfff0 }, mem := Memory.blank.write 0x8000 7 }
    (dev.interrupt s).1 = (dev.interrupt t).1 := by
  intro dev s t
  have words : s.mem.sectorAt s.regs.y = t.mem.sectorAt t.regs.y := by
    funext k
    have low : (k : Nat) < 512 := k.isLt
    have other : (0x8000 : Word) ≠ 0 + UInt16.ofNat k := by
      intro same
      have number : 0x8000 = (0 + UInt16.ofNat k).toNat := congrArg UInt16.toNat same
      rw [UInt16.zero_add, UInt16.toNat_ofNat'] at number
      omega
    show Memory.blank.read (0 + UInt16.ofNat k) = (Memory.blank.write 0x8000 7).read (0 + UInt16.ofNat k)
    rw [Memory.read_write, if_neg other]
  have alike : dev.Alike s t := ⟨rfl, rfl, rfl, fun _ => words⟩
  exact ((keeps_contract dev).alike alike).1

end Dcpu16
