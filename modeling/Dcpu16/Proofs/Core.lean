import Dcpu16.Core
import Dcpu16.Proofs.Memory

/-!
# Words at PC

How resolving an operand moves PC: past the next word that it takes, if it takes one. So the words of an instruction
that stand at PC are taken one after the other. Of the memory an operand reads its next word only (`Core.takes`).
-/

namespace Dcpu16

/-- The place of an operand, from the registers as they are before it is resolved and its next word. -/
def Operand.place (o : Operand) (regs : Registers) (w : Word) : Location :=
  match o with
  | .register r => .register r
  | .indirect r => .memory (regs.get r)
  | .indirectOffset r => .memory (regs.get r + w)
  | .push => .memory (regs.sp - 1)
  | .pop | .peek => .memory regs.sp
  | .pick => .memory (regs.sp + w)
  | .sp => .sp
  | .pc => .pc
  | .ex => .ex
  | .indirectNext => .memory w
  | .next => .literal w
  | .literal v => .literal v

namespace Core

/-- The words stand at PC and behind it; past the end of memory this goes on at address zero. -/
def Holds (s : Core) (ws : List Word) : Prop := s.mem.block s.regs.pc ws.length = ws

/-- The core once PC has passed a word. -/
def past (s : Core) : Core := { s with regs := s.regs.advance 1 }

/-- The core once an operand is resolved. -/
def after (s : Core) (o : Operand) : Core := { s with regs := (s.resolve o).2 }

theorem holds_cons {s : Core} {w : Word} {ws : List Word} : s.Holds (w :: ws) ↔ s.fetch = w ∧ s.past.Holds ws := by
  unfold Holds
  rw [List.length_cons, Memory.block_succ, List.cons.injEq]
  rfl

theorem pc_after_of_takesWord {s : Core} {o : Operand} (h : o.takesWord) :
    (s.after o).regs.pc = s.past.regs.pc ∧ (s.after o).mem = s.mem := by
  cases o with
  | indirectOffset _ | pick | indirectNext | next => exact ⟨rfl, rfl⟩
  | _ => cases h

theorem pc_after {s : Core} {o : Operand} (h : o.takesWord = false) :
    (s.after o).regs.pc = s.regs.pc ∧ (s.after o).mem = s.mem := by
  cases o with
  | indirectOffset _ | pick | indirectNext | next => cases h
  | _ => exact ⟨rfl, rfl⟩

/-- Resolving an operand takes its next word off the words at PC. -/
theorem Holds.after_of_takesWord {s : Core} {o : Operand} {w : Word} {ws : List Word} (hs : s.Holds (w :: ws))
    (h : o.takesWord) : (s.after o).Holds ws := by
  obtain ⟨pc, mem⟩ := pc_after_of_takesWord (s := s) h
  have rest := (holds_cons.mp hs).2
  unfold Holds at rest ⊢
  rw [mem, pc]
  exact rest

theorem Holds.after {s : Core} {o : Operand} {ws : List Word} (hs : s.Holds ws) (h : o.takesWord = false) :
    (s.after o).Holds ws := by
  obtain ⟨pc, mem⟩ := pc_after (s := s) h
  unfold Holds at hs ⊢
  rw [mem, pc]
  exact hs

/-- **An operand takes words**: they stand at PC, as many as its form asks for, it is resolved with them, and PC goes
past them. -/
structure Takes (s : Core) (o : Operand) (ws : List Word) : Prop where
  length : ws.length = o.extraWords
  words : s.Holds ws
  place : (s.resolve o).1 = o.place s.regs (ws.headD 0)
  pc : (s.after o).regs.pc = s.regs.pc + UInt16.ofNat ws.length
  mem : (s.after o).mem = s.mem

theorem takes (s : Core) (o : Operand) : s.Takes o (s.mem.block s.regs.pc o.extraWords) where
  length := Memory.length_block ..
  words := by rw [Holds, Memory.length_block]
  place := by
    have head : (s.mem.block s.regs.pc 1).headD 0 = s.fetch := by rw [Memory.block_succ]; rfl
    cases o with
    | indirectOffset _ | pick | indirectNext | next =>
      simp only [resolve, Operand.place, Operand.extraWords, Operand.takesWord, Bool.toNat_true, head]
    | _ => rfl
  pc := by
    rw [Memory.length_block, Operand.extraWords]
    cases h : o.takesWord with
    | true => exact (pc_after_of_takesWord h).1
    | false => exact (pc_after h).1.trans (UInt16.add_zero _).symm
  mem := by
    cases h : o.takesWord with
    | true => exact (pc_after_of_takesWord h).2
    | false => exact (pc_after h).2

/-- The core once PC has passed an instruction at PC and its operands are resolved. -/
def resolved (s : Core) : Instruction → Core
  | .basic _ b a => (s.past.after a).after b
  | .special _ a => s.past.after a

theorem mem_resolved (s : Core) (i : Instruction) : (s.resolved i).mem = s.mem := by
  cases i with
  | basic op b a => exact ((s.past.after a).takes b).mem.trans (s.past.takes a).mem
  | special op a => exact (s.past.takes a).mem

/-- Resolving the operands of an instruction takes PC past the words that it is long. -/
theorem pc_resolved (s : Core) (i : Instruction) : (s.resolved i).regs.pc = s.regs.pc + UInt16.ofNat i.size := by
  have step (s : Core) (o : Operand) : (s.after o).regs.pc = s.regs.pc + UInt16.ofNat o.extraWords := by
    rw [(s.takes o).pc, (s.takes o).length]
  have past : s.past.regs.pc = s.regs.pc + UInt16.ofNat 1 := rfl
  cases i with
  | basic op b a =>
    rw [resolved, step, step, past, Instruction.size, Instruction.extraWords, Nat.add_comm b.extraWords,
      UInt16.ofNat_add, UInt16.ofNat_add, ← UInt16.add_assoc, ← UInt16.add_assoc]
  | special op a =>
    rw [resolved, step, past, Instruction.size, Instruction.extraWords, UInt16.ofNat_add, ← UInt16.add_assoc]

end Core

end Dcpu16
