import Dcpu16.Proofs.Assembly.Printed
import Dcpu16.Proofs.Cycle
import Dcpu16.Proofs.Skip

/-!
# Where instructions end

The length that is read off an instruction word is where execution goes on behind the instruction, where a reserved
word is passed over to, where a skip goes on and how much the listing shows; and the words in between are the same next
words of the same operands for the machine and for the listing (`boundaries_agree`).
-/

namespace Dcpu16

namespace Machine

variable {δ : Type} [Peripheral δ] (m : Machine δ)

/-! ## What is claimed of the words at PC -/

/-- A basic instruction at PC: the source takes the words `aw` and the destination the words `bw` behind them; the
operation is then applied with PC at `behind`. The listing shows the text `text`. -/
structure BasicAt (op : BasicOp) (b a : Operand) (aw bw : List Word) (behind : Word) (text : Text) : Prop where
  source : m.toCore.past.Takes a aw
  destination : (m.toCore.past.after a).Takes b bw
  pc : ((m.toCore.past.after a).after b).regs.pc = behind
  applied :
    let before := (m.toCore.past.after a).after b
    let value := (m.toCore.past.after a).load (m.toCore.past.resolve a).1
    m.step.1.toCore = (before.applyBasic op ((m.toCore.past.after a).resolve b).1 value).1
  text : text = op.mnemonic.toList ++ ' ' :: b.text (bw.headD 0) ++ ',' :: ' ' :: a.text (aw.headD 0)

/-- A special instruction at PC: the operand takes the words `aw`, and the operation is then applied with PC at
`behind`. The listing shows the text `text`. -/
structure SpecialAt (op : SpecialOp) (a : Operand) (aw : List Word) (behind : Word) (text : Text) : Prop where
  source : m.toCore.past.Takes a aw
  pc : (m.toCore.past.after a).regs.pc = behind
  applied :
    let before : Machine δ := { m with toCore := m.toCore.past.after a }
    m.step.1.toCore = (before.applySpecial op (m.toCore.past.resolve a).1).toCore
  text : text = op.mnemonic.toList ++ ' ' :: a.text (aw.headD 0)

/-- **Where the instruction at PC ends**, if it is `length` words long and `next` are those behind the first. -/
structure Boundary (length : Nat) (next : List Word) : Prop where
  basic {op : BasicOp} {b a : Operand} (h : Instruction.decode m.toCore.fetch = .ok (.basic op b a)) :
    ∃ aw bw, next = aw ++ bw ∧
      m.BasicAt op b a aw bw (m.regs.pc + UInt16.ofNat length) (wordsText m.toCore.fetch next)
  special {op : SpecialOp} {a : Operand} (h : Instruction.decode m.toCore.fetch = .ok (.special op a)) :
    m.SpecialAt op a next (m.regs.pc + UInt16.ofNat length) (wordsText m.toCore.fetch next)
  /-- A reserved word is passed over, and shown as data with the words that its fields announce. -/
  reserved {e : DecodeError} (h : Instruction.decode m.toCore.fetch = .error e) :
    m.step = ({ m with regs.pc := m.regs.pc + UInt16.ofNat length }, .error e) ∧
      wordsText m.toCore.fetch next = dataText (m.toCore.fetch :: next)
  /-- A skip goes over the instruction; it ends there unless the instruction is conditional, and else goes on. -/
  skip :
    let beyond : Core := { m.toCore with regs.pc := m.regs.pc + UInt16.ofNat length }
    (m.toCore.fetch.isConditional = false → m.toCore.skip = (beyond, 1)) ∧
      (m.toCore.fetch.isConditional → ∀ k, beyond.mem.FirstPlain beyond.regs.pc k →
        m.toCore.skip = (beyond.skip.1, beyond.skip.2 + 1))
  listing : m.mem.lineAt m.regs.pc = (wordsText m.toCore.fetch next, length)

/-! ## Decoded words -/

section
variable {m}

/-- The words that an operand is shown with matter only if it takes any. -/
theorem text_headD_append (o : Operand) {xs : List Word} (h : xs.length = o.extraWords) (ys : List Word) :
    o.text ((xs ++ ys).headD 0) = o.text (xs.headD 0) := by
  cases xs with
  | cons x xs => rfl
  | nil =>
    have none_taken : o.takesWord = false := by
      cases ht : o.takesWord with
      | false => rfl
      | true => simp [Operand.extraWords, ht] at h
    exact Operand.text_of_takesWord none_taken _

theorem basicAt_of_decode {op : BasicOp} {b a : Operand}
    (h : Instruction.decode m.toCore.fetch = .ok (.basic op b a)) :
    ∃ aw bw, m.mem.block (m.regs.pc + 1) (m.toCore.fetch.instructionLength - 1) = aw ++ bw ∧
      m.BasicAt op b a aw bw (m.regs.pc + UInt16.ofNat m.toCore.fetch.instructionLength)
        (wordsText m.toCore.fetch (m.mem.block (m.regs.pc + 1) (m.toCore.fetch.instructionLength - 1))) := by
  have source := m.toCore.past.takes a
  have destination := (m.toCore.past.after a).takes b
  rw [source.mem, source.pc, Memory.length_block] at destination
  have size : m.toCore.fetch.instructionLength - 1 = a.extraWords + b.extraWords := by
    rw [← Instruction.size_of_decode h]
    simp only [Instruction.size, Instruction.extraWords]
    omega
  have split := Memory.block_add m.mem (m.regs.pc + 1) a.extraWords b.extraWords
  rw [← size] at split
  refine ⟨_, _, split, source, destination, ?_, ?_, ?_⟩
  · rw [← Instruction.size_of_decode h]
    exact m.toCore.pc_resolved (.basic op b a)
  · rw [step_of_ok h]
    exact toCore_execute_basic ..
  · simp only [wordsText, h, Instruction.text]
    rw [split, text_headD_append a (Memory.length_block ..), List.drop_left' (Memory.length_block ..)]

theorem specialAt_of_decode {op : SpecialOp} {a : Operand}
    (h : Instruction.decode m.toCore.fetch = .ok (.special op a)) :
    m.SpecialAt op a (m.mem.block (m.regs.pc + 1) (m.toCore.fetch.instructionLength - 1))
      (m.regs.pc + UInt16.ofNat m.toCore.fetch.instructionLength)
      (wordsText m.toCore.fetch (m.mem.block (m.regs.pc + 1) (m.toCore.fetch.instructionLength - 1))) := by
  have source := m.toCore.past.takes a
  have length : m.toCore.fetch.instructionLength = 1 + a.extraWords := (Instruction.size_of_decode h).symm
  rw [length, Nat.add_sub_cancel_left]
  refine ⟨source, ?_, ?_, ?_⟩
  · exact m.toCore.pc_resolved (.special op a)
  · rw [step_of_ok h, execute_special]
    rfl
  · simp only [wordsText, h, Instruction.text]

end

/-! ## All words -/

/-- **All parts agree on where instructions end**: at every address of every memory. -/
theorem boundaries_agree :
    m.Boundary m.toCore.fetch.instructionLength
      (m.mem.block (m.regs.pc + 1) (m.toCore.fetch.instructionLength - 1)) where
  basic := basicAt_of_decode
  special := specialAt_of_decode
  reserved h := ⟨step_of_error h, by simp only [wordsText, h]⟩
  skip := ⟨fun plain => Core.skip_of_plain plain, fun conditional _ ends => Core.skip_of_conditional conditional ends⟩
  listing := rfl

end Machine

end Dcpu16
