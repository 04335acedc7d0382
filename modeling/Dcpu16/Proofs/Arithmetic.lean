import Dcpu16.Proofs.Core

/-!
# Basic operations at work

What a basic operation reads, and what it leaves behind. Once its operands are resolved only its destination and EX
change (`Core.Leaves`). Resolving them moves PC and SP, but a general register or a word of memory keeps its value, so
that the operation finds there what stood there before.
-/

namespace Dcpu16

/-- The word that an effect stores and the one that EX holds behind it, if it changes nothing else. -/
def Effect.results? (ex : Word) : Effect → Option (Word × Word)
  | .store v => some (v, ex)
  | .storeEx v e => some (v, e)
  | .storeStep .. | .test _ => none

namespace Location

/-- A place that programs keep words in: a general register or a word of memory. -/
def isCell : Location → Bool
  | register _ | memory _ => true
  | _ => false

/-- A place that keeps what an operation stores, and is not EX, which has a word of its own behind it. -/
def isWritable : Location → Bool
  | ex | literal _ => false
  | _ => true

/-- A place whose value only an instruction changes that names it: a cell, or a literal, which nothing changes. -/
def isSteady : Location → Bool
  | sp | pc | ex => false
  | _ => true

theorem isSteady_of_isCell {l : Location} (h : l.isCell) : l.isSteady := by
  cases l with
  | register _ | memory _ => rfl
  | sp | pc | ex | literal _ => cases h

theorem isWritable_of_isCell {l : Location} (h : l.isCell) : l.isWritable := by
  cases l with
  | register _ | memory _ => rfl
  | sp | pc | ex | literal _ => cases h

theorem ne_ex_of_isWritable {l : Location} (h : l.isWritable) : l ≠ .ex := by
  rintro rfl
  cases h

end Location

namespace Core

/-- The registers and the memory with both operands resolved, the source before the destination. -/
def prepared (s : Core) (b a : Operand) : Core := (s.after a).after b

/-- The place that a basic operation writes to. -/
def destination (s : Core) (b a : Operand) : Location := ((s.after a).resolve b).1

/-- The value that a basic operation reads from its source. -/
def source (s : Core) (a : Operand) : Word := (s.after a).load (s.resolve a).1

section
variable {s : Core} {l k : Location} {v e : Word}

/-! ## What operands leave alone -/

theorem ex_after (o : Operand) : (s.after o).regs.ex = s.regs.ex := by
  cases o <;> rfl

theorem load_after (h : l.isSteady) (o : Operand) : (s.after o).load l = s.load l := by
  cases l with
  | register r => cases o <;> cases r <;> rfl
  | memory p => exact congrArg (·.read p) (s.takes o).mem
  | literal w => rfl
  | sp | pc | ex => cases h

theorem ex_prepared (b a : Operand) : (s.prepared b a).regs.ex = s.regs.ex := (ex_after b).trans (ex_after a)

theorem load_prepared (h : l.isSteady) (b a : Operand) : (s.prepared b a).load l = s.load l :=
  (load_after h b).trans (load_after h a)

/-- No operand moves what it stands for. -/
theorem source_eq (a : Operand) : s.source a = s.load (s.resolve a).1 := by
  cases a with
  | sp | pc | ex => rfl
  | _ => exact load_after rfl _

/-! ## What operations leave behind -/

/-- A basic operation applies itself once its operands are resolved. -/
theorem fst_basic (op : BasicOp) (b a : Operand) :
    (s.basic op b a).1 = ((s.prepared b a).applyBasic op (s.destination b a) (s.source a)).1 := rfl

/-- Writing to a place leaves all others alone. -/
theorem load_store_of_ne (h : l ≠ k) : (s.store l v).load k = s.load k := by
  cases l with
  | register r =>
    cases k with
    | register q => exact (Registers.get_set ..).trans (if_neg fun same => h (congrArg _ same))
    | sp | pc | ex => cases r <;> rfl
    | memory _ | literal _ => rfl
  | memory p =>
    cases k with
    | memory q => exact (Memory.read_write ..).trans (if_neg fun same => h (congrArg _ same))
    | _ => rfl
  | sp | pc | ex =>
    cases k with
    | register q => cases q <;> rfl
    | memory _ | literal _ => rfl
    | sp | pc | ex => simp_all [load, store]
  | literal w => rfl

theorem load_store_of_isWritable (h : l.isWritable) : (s.store l v).load l = v := by
  rw [load_store]
  cases l with
  | register _ | memory _ | sp | pc => rfl
  | ex | literal _ => cases h

theorem ex_store (h : l.isWritable) : (s.store l v).regs.ex = s.regs.ex :=
  load_store_of_ne (k := .ex) (Location.ne_ex_of_isWritable h)

/-- **What an operation leaves behind**, once its operands are resolved: the word `v` at its destination, the word `e`
in EX, and every other place as it was. -/
structure Leaves (s : Core) (dest : Location) (v e : Word) (t : Core) : Prop where
  stored : t.load dest = v
  excess : t.regs.ex = e
  others {l : Location} (other : l ≠ dest) (apart : l ≠ .ex) : t.load l = s.load l

theorem leaves {op : BasicOp} {b a : Operand} (writable : (s.destination b a).isWritable)
    (effect : (op.effect ((s.prepared b a).load (s.destination b a)) (s.source a) s.regs.ex).results? s.regs.ex =
      some (v, e)) :
    (s.prepared b a).Leaves (s.destination b a) v e (s.basic op b a).1 := by
  rw [fst_basic, applyBasic, ex_prepared]
  cases h : op.effect ((s.prepared b a).load (s.destination b a)) (s.source a) s.regs.ex with
  | store u =>
    rw [h] at effect
    cases effect
    dsimp only [perform]
    exact {
      stored := load_store_of_isWritable writable
      excess := by rw [ex_store writable, ex_prepared]
      others := fun other _ => load_store_of_ne other.symm }
  | storeEx u x =>
    rw [h] at effect
    cases effect
    dsimp only [perform]
    exact {
      stored := by rw [load_store_of_ne (Location.ne_ex_of_isWritable writable).symm, load_store_of_isWritable writable]
      excess := rfl
      others := fun other apart => by rw [load_store_of_ne apart.symm, load_store_of_ne other.symm] }
  | storeStep _ _ | test _ =>
    rw [h] at effect
    cases effect

end

end Core

end Dcpu16
