import Dcpu16.Instruction.Encoding

/-!
# Decoding and encoding are inverse

Which operand forms have a code of their own in each position, and what encoding and decoding do to each other
on the instructions made of them. The length that is read off an instruction word is the size of its instruction, and
the bits that announce a test are those of a test. Every instruction has a word, but one with an operand out of place
shares it with another instruction, and that one is read back (`decode_encode_eq`). So encoding and decoding are inverse
on just the instructions that instruction words stand for (`encoding_inverse`).
-/

namespace Dcpu16

namespace Operand

/-- The forms that a destination code stands for. -/
def IsDestination : Operand → Prop
  | .pop | .literal _ => False
  | _ => True

/-- The forms that a source code stands for. -/
def IsSource : Operand → Prop
  | .push => False
  | .literal v => v = 0xffff ∨ v ≤ 30
  | _ => True

instance : DecidablePred IsDestination := fun o => by cases o <;> unfold IsDestination <;> infer_instance

instance : DecidablePred IsSource := fun o => by cases o <;> unfold IsSource <;> infer_instance

/-! ### Codes -/

theorem code_destination {n : Nat} (h : n < 0x20) : (destination n).code = n := by
  revert n; decide

theorem code_source {n : Nat} (h : n < 0x40) : (source n).code = n := by
  revert n; decide

theorem isDestination_destination (n : Nat) : (destination n).IsDestination := by
  have small : ∀ k < 0x20, (destination k).IsDestination := by decide
  have low : destination n = destination (n % 0x20) := by simp [destination]
  exact low ▸ small _ (Nat.mod_lt _ (by decide))

theorem isSource_source (n : Nat) : (source n).IsSource := by
  have small : ∀ k < 0x40, (source k).IsSource := by decide
  have low : source n = source (n % 0x40) := by simp [source]
  exact low ▸ small _ (Nat.mod_lt _ (by decide))

theorem destination_code {o : Operand} (h : o.IsDestination) : destination o.code = o := by
  cases o with
  | pop | literal _ => exact h.elim
  | register r | indirect r | indirectOffset r => cases r <;> rfl
  | push | peek | pick | sp | pc | ex | indirectNext | next => rfl

theorem source_code {o : Operand} (h : o.IsSource) : source o.code = o := by
  cases o with
  | push => exact h.elim
  | register r | indirect r | indirectOffset r => cases r <;> rfl
  | pop | peek | pick | sp | pc | ex | indirectNext | next => rfl
  | literal v =>
    have small : ∀ n < 31, source (literal (UInt16.ofNat n)).code = .literal (UInt16.ofNat n) := by decide
    rcases h with rfl | h
    · rfl
    · have := small v.toNat (Nat.lt_succ_of_le (UInt16.le_iff_toNat_le.mp h))
      rwa [UInt16.ofNat_toNat] at this

/-! ### Next words -/

theorem codeTakesWord_destination {n : Nat} (h : n < 0x20) : Word.codeTakesWord n = (destination n).takesWord := by
  revert n; decide

theorem codeTakesWord_source {n : Nat} (h : n < 0x40) : Word.codeTakesWord n = (source n).takesWord := by
  revert n; decide

end Operand

namespace Instruction

/-- The instructions that instruction words stand for. -/
def WellFormed : Instruction → Prop
  | .basic _ b a => b.IsDestination ∧ a.IsSource
  | .special _ a => a.IsSource

/-! ### Both ways -/

theorem encode_of_decode {w : Word} {i : Instruction} (h : decode w = .ok i) : i.encode = w := by
  have ha := Operand.code_source w.aField_lt
  have hb := Operand.code_destination w.bField_lt
  unfold decode at h
  split at h
  · next ho =>
    split at h <;> cases h
    next op hop =>
    rw [encode, ha, SpecialOp.code_of_ofCode? hop, ← ho, Word.ofFields_fields]
  · split at h <;> cases h
    next op hop =>
    rw [encode, ha, hb, BasicOp.code_of_ofCode? hop, Nat.mod_eq_of_lt w.bField_lt, Word.ofFields_fields]

theorem wellFormed_of_decode {w : Word} {i : Instruction} (h : decode w = .ok i) : i.WellFormed := by
  unfold decode at h
  split at h <;> split at h <;> cases h
  · exact Operand.isSource_source _
  · exact ⟨Operand.isDestination_destination _, Operand.isSource_source _⟩

/-- The instruction that the word of an instruction is read as: each operand has the form that its code stands for in
its position. -/
def readBack : Instruction → Instruction
  | .basic op b a => .basic op (.destination b.code) (.source a.code)
  | .special op a => .special op (.source a.code)

/-- The word of an instruction always decodes. -/
theorem decode_encode_eq (i : Instruction) : decode i.encode = .ok i.readBack := by
  cases i with
  | basic op b a =>
    have hop : op.code < 0x20 ∧ op.code ≠ 0 := by cases op <;> decide
    obtain ⟨ho, hb, ha⟩ := Word.fields_ofFields hop.1 (Nat.mod_lt b.code (by decide)) a.code_lt
    have low : Operand.destination (b.code % 0x20) = .destination b.code := by simp [Operand.destination]
    simp only [decode, encode, readBack, ho, hb, ha, hop.2, if_false, BasicOp.ofCode?_code, low]
  | special op a =>
    have hop : op.code < 0x20 := by cases op <;> decide
    obtain ⟨ho, hb, ha⟩ := Word.fields_ofFields (Nat.zero_lt_succ 31) hop a.code_lt
    simp only [decode, encode, readBack, ho, hb, ha, if_true, SpecialOp.ofCode?_code]

theorem readBack_of_wellFormed {i : Instruction} (h : i.WellFormed) : i.readBack = i := by
  cases i with
  | basic op b a => rw [readBack, Operand.destination_code h.1, Operand.source_code h.2]
  | special op a => rw [readBack, Operand.source_code h]

theorem decode_encode {i : Instruction} (h : i.WellFormed) : decode i.encode = .ok i := by
  rw [decode_encode_eq, readBack_of_wellFormed h]

/-! ### What is read off the fields -/

/-- The length of an instruction word is the size of its instruction. -/
theorem size_of_decode {w : Word} {i : Instruction} (h : decode w = .ok i) : i.size = w.instructionLength := by
  have ha := Operand.codeTakesWord_source w.aField_lt
  have hb := Operand.codeTakesWord_destination w.bField_lt
  unfold decode at h
  split at h
  · next ho =>
    split at h <;> cases h
    simp only [size, extraWords, Word.instructionLength, Operand.extraWords, ha, ho, if_true]
    omega
  · next ho =>
    split at h <;> cases h
    simp only [size, extraWords, Word.instructionLength, Operand.extraWords, ha, hb, ho, if_false]
    omega

/-- The operations whose codes have the bits that announce a test are the tests. -/
theorem isConditional_of_decode {w : Word} {i : Instruction} (h : decode w = .ok i) :
    w.isConditional ↔ ∃ op b a, i = .basic op b a ∧ op.isConditional := by
  have codes (op : BasicOp) : (0x10 ≤ op.code && op.code ≤ 0x17) = op.isConditional := by cases op <;> rfl
  unfold decode at h
  split at h
  · next ho =>
    split at h <;> cases h
    simp [Word.isConditional, ho]
  · split at h <;> cases h
    next op hop =>
    rw [Word.isConditional, ← BasicOp.code_of_ofCode? hop, codes]
    constructor
    · intro test
      exact ⟨_, _, _, rfl, test⟩
    · rintro ⟨_, _, _, same, test⟩
      cases same
      exact test

/-- **Encoding and decoding are inverse on their exact domains.** A word that decodes is the word of its instruction,
and length and test are read off it rightly. An instruction is read back from its word exactly if it is well formed: if
its destination is neither POP nor a literal, its source is not PUSH, and a literal source is small enough. Out of place
an operand turns into the one that its code stands for. -/
theorem encoding_inverse :
    (∀ w i, decode w = .ok i →
      i.encode = w ∧ i.size = w.instructionLength ∧
        (w.isConditional ↔ ∃ op b a, i = .basic op b a ∧ op.isConditional)) ∧
      ∀ i : Instruction, decode i.encode = .ok i.readBack ∧ (decode i.encode = .ok i ↔ i.WellFormed) := by
  refine ⟨fun w i decoded => ?_, fun i => ⟨decode_encode_eq i, ?_⟩⟩
  · exact ⟨encode_of_decode decoded, size_of_decode decoded, isConditional_of_decode decoded⟩
  · constructor
    · exact wellFormed_of_decode
    · exact decode_encode

/-- IFN [J + next], PICK next has three words. SET 5, PUSH has the word of SET I, POP. -/
theorem encoding_inverse_of_test :
    (basic .ifn (.indirectOffset .j) .pick).encode = 0x6af3 ∧ (0x6af3 : Word).instructionLength = 3 ∧
      decode (basic .set (.literal 5) .push).encode = .ok (.basic .set (.register .i) .pop) := by
  obtain ⟨words, instructions⟩ := encoding_inverse
  have decoded : decode 0x6af3 = .ok (.basic .ifn (.indirectOffset .j) .pick) := rfl
  obtain ⟨word, length, -⟩ := words _ _ decoded
  exact ⟨word, length.symm, (instructions _).1⟩

end Instruction

end Dcpu16
