import Dcpu16.Proofs.Arithmetic
import Dcpu16.Proofs.Cycle.DeviceTime

/-!
# What instructions leave alone

An instruction writes to its destination, if it has one, and to the few registers that its operation implies; its
operands move PC and SP. Nothing else is touched (`touches_only_destinations`): neither the rest of memory, nor the
interrupt queue, nor a device. Only HWI is left out here, behind which there is whatever a device does.
-/

namespace Dcpu16

/-! ## Declared destinations -/

/-- The places that an effect changes besides its destination. -/
def Effect.implied : Effect → List Location
  | store _ | test _ => []
  | storeEx _ _ => [.ex]
  | storeStep _ _ => [.register .i, .register .j]

/-- The places that an operation changes besides its destination. PC is moved by all of them. -/
def BasicOp.implied : BasicOp → List Location
  | add | sub | mul | mli | div | dvi | shr | asr | shl | adx | sbx => [.ex]
  | sti | std => [.register .i, .register .j]
  | set | mod | mdi | and | bor | xor | ifb | ifc | ife | ifn | ifg | ifa | ifl | ifu => []

theorem BasicOp.implied_effect (op : BasicOp) (b a ex : Word) :
    (op.effect b a ex).implied = op.implied := by
  by_cases h : a = 0 <;> cases op <;>
    simp [BasicOp.implied, BasicOp.effect, Effect.carry, Effect.fraction, Effect.implied, h]

namespace SpecialOp

/-- The general registers that an operation other than HWI changes besides its operand. -/
def implied : SpecialOp → List Location
  | rfi => [.register .a]
  | hwq => [.register .a, .register .b, .register .c, .register .x, .register .y]
  | jsr | int | iag | ias | iaq | hwn | hwi => []

/-- How far an operation moves SP, besides its operand: JSR pushes a word and RFI pops two. -/
def stackSteps : SpecialOp → Word
  | jsr => -1
  | rfi => 2
  | int | iag | ias | iaq | hwn | hwq | hwi => 0

end SpecialOp

/-- How far an operand moves SP. -/
def Operand.stackSteps : Operand → Word
  | .push => -1
  | .pop => 1
  | _ => 0

namespace Instruction

/-- The places that an instruction changes besides its destination, PC and SP. -/
def implied : Instruction → List Location
  | .basic op _ _ => op.implied
  | .special op _ => op.implied

/-- How far an instruction moves SP, if that is not its destination. -/
def stackSteps : Instruction → Word
  | .basic _ b a => a.stackSteps + b.stackSteps
  | .special op a => a.stackSteps + op.stackSteps

/-- Whether an instruction is a test. -/
def isConditional : Instruction → Bool
  | .basic op _ _ => op.isConditional
  | .special _ _ => false

/-- The instructions that raise a message or turn queueing on or off. -/
def reachesQueue : Instruction → Bool
  | .special .int _ | .special .rfi _ | .special .iaq _ => true
  | _ => false

end Instruction

/-- The place that an instruction writes to, if PC has passed its first word: a test has none, and JSR writes the word
that it pushes. -/
def Core.target? (s : Core) : Instruction → Option Location
  | .basic op b a => if op.isConditional then none else some (s.destination b a)
  | .special .jsr a => some (.memory ((s.after a).regs.sp - 1))
  | .special .iag a | .special .hwn a => some (s.resolve a).1
  | .special _ _ => none

/-- **An instruction that touches only its destinations**: what it leaves alone of a machine `m` where it stands at PC,
if `t` is the machine behind it. -/
structure Machine.TouchesOnly {δ : Type} (m : Machine δ) (i : Instruction) (t : Machine δ) : Prop where
  memory {p : Word} (other : m.toCore.past.target? i ≠ some (.memory p)) : t.mem.read p = m.mem.read p
  /-- JSR writes the word at the new SP. -/
  call {a : Operand} (h : i = .special .jsr a) : m.toCore.past.target? i = some (.memory t.regs.sp)
  /-- A test moves PC and SP, and has its cost. -/
  test (h : i.isConditional) :
    ∃ pc sp owed, t = { m with regs := { m.regs with pc, sp }, sleep := owed, status := t.status }
  /-- Into a literal nothing is written. -/
  literal {v : Word} (h : m.toCore.past.target? i = some (.literal v)) :
    t.mem = m.mem ∧ t.regs.ia = m.regs.ia ∧ ∀ r, t.regs.get r ≠ m.regs.get r →
      (r = .i ∨ r = .j) ∧ ∃ b a, i = .basic .sti b a ∨ i = .basic .std b a
  register {r : Register} (other : m.toCore.past.target? i ≠ some (.register r))
    (apart : .register r ∉ i.implied) : t.regs.get r = m.regs.get r
  /-- PUSH and POP move SP by one word each, also where a destination is read and written. -/
  sp (other : m.toCore.past.target? i ≠ some .sp) : t.regs.sp = m.regs.sp + i.stackSteps
  ex (other : m.toCore.past.target? i ≠ some .ex) (apart : .ex ∉ i.implied) : t.regs.ex = m.regs.ex
  ia (other : ∀ a, i ≠ .special .ias a) : t.regs.ia = m.regs.ia
  queue (other : i.reachesQueue = false) : t.interrupts = m.interrupts
  status (other : ∀ a, i ≠ .special .int a) (fits : t.status ≠ .overflowed) : t.status = m.status
  others : t.cycles = m.cycles ∧ t.devices = m.devices

namespace Core

section
variable {s : Core} {l k : Location} {v : Word} {op : BasicOp} {b a : Operand}

/-! ## Operands -/

/-- Operands move PC and SP and nothing else. -/
theorem after_eq (o : Operand) :
    s.after o = { s with regs := { s.regs with pc := (s.after o).regs.pc, sp := (s.after o).regs.sp } } := by
  cases o <;> rfl

theorem prepared_eq : s.prepared b a =
    { s with regs := { s.regs with pc := (s.prepared b a).regs.pc, sp := (s.prepared b a).regs.sp } } := by
  rw [prepared, after_eq b, after_eq a]

theorem sp_after (o : Operand) : (s.after o).regs.sp = s.regs.sp + o.stackSteps := by
  cases o with
  | push => exact UInt16.sub_eq_add_neg ..
  | pop => rfl
  | _ => exact (UInt16.add_zero _).symm

theorem load_after_of_ne (pc : l ≠ .pc) (sp : l ≠ .sp) (o : Operand) : (s.after o).load l = s.load l := by
  cases l with
  | pc => exact absurd rfl pc
  | sp => exact absurd rfl sp
  | ex => exact ex_after o
  | register _ | memory _ | literal _ => exact load_after rfl o

theorem ia_after (o : Operand) : (s.after o).regs.ia = s.regs.ia := by
  cases o <;> rfl

theorem load_past (pc : l ≠ .pc) : s.past.load l = s.load l := load_store_of_ne (l := .pc) pc.symm

/-! ## Basic operations -/

theorem ia_store : (s.store l v).regs.ia = s.regs.ia := by
  cases l with
  | register r => cases r <;> rfl
  | memory _ | sp | pc | ex | literal _ => rfl

theorem perform_storeStep (v step : Word) : s.perform l (.storeStep v step) =
    ((s.store l v).store (.register .i) ((s.store l v).regs.i + step)).store (.register .j)
      ((s.store l v).regs.j + step) := rfl

theorem load_perform {e : Effect} (other : e.isTest = false → l ≠ k) (apart : k ∉ e.implied) :
    (s.perform l e).load k = s.load k := by
  cases e with
  | store v => exact load_store_of_ne (other rfl)
  | storeEx v x =>
    rw [perform, load_store_of_ne (Ne.symm (List.ne_of_not_mem_cons apart)), load_store_of_ne (other rfl)]
  | storeStep v step =>
    have i := List.ne_of_not_mem_cons apart
    have j := List.ne_of_not_mem_cons (List.not_mem_of_not_mem_cons apart)
    rw [perform_storeStep, load_store_of_ne j.symm, load_store_of_ne i.symm, load_store_of_ne (other rfl)]
  | test _ => rfl

theorem ia_perform (e : Effect) : (s.perform l e).regs.ia = s.regs.ia := by
  cases e with
  | store v => exact ia_store
  | storeEx v x => exact ia_store.trans ia_store
  | storeStep v step => rw [perform_storeStep, ia_store, ia_store, ia_store]
  | test _ => rfl

/-- A skip moves PC. -/
theorem skip_eq : s.skip.1 = s.store .pc s.skip.1.regs.pc := by
  unfold skip
  split <;> rfl

/-- A basic operation moves PC if it is a test, and performs its effect if it is not. -/
theorem applyBasic_cases (op : BasicOp) (dest : Location) (v : Word) :
    op.isConditional ∧ (∃ pc, (s.applyBasic op dest v).1 = s.store .pc pc) ∨
      op.isConditional = false ∧
        (s.applyBasic op dest v).1 = s.perform dest (op.effect (s.load dest) v s.regs.ex) := by
  rw [← op.isTest_effect (s.load dest) v s.regs.ex]
  unfold applyBasic
  split
  · next failed =>
    rw [failed]
    exact .inl ⟨rfl, _, skip_eq⟩
  · next passed =>
    cases effect : op.effect (s.load dest) v s.regs.ex with
    | test holds => exact .inl ⟨rfl, s.regs.pc, rfl⟩
    | store _ | storeEx _ _ | storeStep _ _ => exact .inr ⟨rfl, rfl⟩

theorem load_basic (pc : k ≠ .pc) (other : s.target? (.basic op b a) ≠ some k) (apart : k ∉ op.implied) :
    (s.basic op b a).1.load k = (s.prepared b a).load k := by
  rw [fst_basic]
  rcases applyBasic_cases op (s.destination b a) (s.source a) with ⟨-, p, moved⟩ | ⟨plain, performed⟩
  · rw [moved, load_store_of_ne pc.symm]
  · rw [target?, plain, if_neg Bool.false_ne_true] at other
    rw [performed]
    exact load_perform (fun _ same => other (congrArg _ same)) (by rwa [BasicOp.implied_effect])

theorem ia_basic : (s.basic op b a).1.regs.ia = s.regs.ia := by
  have before : (s.prepared b a).regs.ia = s.regs.ia := (ia_after b).trans (ia_after a)
  rw [fst_basic, ← before]
  rcases applyBasic_cases op (s.destination b a) (s.source a) with ⟨-, p, moved⟩ | ⟨-, performed⟩
  · rw [moved, ia_store]
  · rw [performed, ia_perform]

end

end Core

namespace Machine

section
variable {δ : Type} {m t : Machine δ} {i : Instruction} {op : SpecialOp} {place l : Location} {v : Word}

/-! ## Places -/

/-- No instruction implies a place in memory. -/
theorem memory_not_mem_implied (p : Word) : .memory p ∉ i.implied := by
  cases i with
  | basic op b a => cases op <;> simp [Instruction.implied, BasicOp.implied]
  | special op a => cases op <;> simp [Instruction.implied, SpecialOp.implied]

/-- Of the instructions that write into literals, STI and STD imply general registers. -/
theorem register_of_mem_implied {s : Core} {r : Register} (h : s.target? i = some (.literal v))
    (implied : .register r ∈ i.implied) :
    (r = .i ∨ r = .j) ∧ ∃ b a, i = .basic .sti b a ∨ i = .basic .std b a := by
  cases i with
  | basic op b a => cases op <;> simp_all [Instruction.implied, BasicOp.implied]
  | special op a => cases op <;> simp_all [Instruction.implied, SpecialOp.implied, Core.target?]

/-- What is said of one place at a time: it is as it was, unless it is PC or SP, the destination or implied. -/
def KeepsPlaces (m : Machine δ) (i : Instruction) (t : Machine δ) : Prop :=
  ∀ l, l ≠ .pc → l ≠ .sp → m.toCore.past.target? i ≠ some l → l ∉ i.implied → t.toCore.load l = m.toCore.load l

theorem KeepsPlaces.memory (h : m.KeepsPlaces i t) {p : Word} (other : m.toCore.past.target? i ≠ some (.memory p)) :
    t.mem.read p = m.mem.read p :=
  h (.memory p) (by simp) (by simp) other (memory_not_mem_implied p)

theorem KeepsPlaces.literal (h : m.KeepsPlaces i t) (literal : m.toCore.past.target? i = some (.literal v)) :
    t.mem = m.mem ∧ ∀ r, t.regs.get r ≠ m.regs.get r →
      (r = .i ∨ r = .j) ∧ ∃ b a, i = .basic .sti b a ∨ i = .basic .std b a := by
  refine ⟨Memory.ext_read fun p => h.memory (by simp [literal]), fun r changed => ?_⟩
  by_cases implied : .register r ∈ i.implied
  · exact register_of_mem_implied literal implied
  · exact absurd (h (.register r) (by simp) (by simp) (by simp [literal]) implied) changed

/-! ## Special operations -/

/-- The place that a special operation stores in, on a resolved operand. -/
def stored? (m : Machine δ) (op : SpecialOp) (place : Location) : Option Location :=
  match op with
  | .jsr => some (.memory (m.regs.sp - 1))
  | .iag | .hwn => some place
  | _ => none

theorem stored?_eq {a : Operand} : ({ m with toCore := m.toCore.past.after a } : Machine δ).stored? op
    (m.toCore.past.resolve a).1 = m.toCore.past.target? (.special op a) := by
  cases op <;> rfl

theorem toCore_raise (msg : Word) : (m.raise msg).toCore = m.toCore := by
  unfold raise
  split <;> rfl

variable [Peripheral δ]

theorem load_applySpecial (hwi : op ≠ .hwi) (pc : l ≠ .pc) (sp : l ≠ .sp) (other : m.stored? op place ≠ some l)
    (apart : l ∉ op.implied) : (m.applySpecial op place).toCore.load l = m.toCore.load l := by
  cases op with
  | hwi => exact absurd rfl hwi
  | jsr =>
    have pushed : (m.applySpecial .jsr place).toCore =
        ((m.toCore.store .sp (m.regs.sp - 1)).store (.memory (m.regs.sp - 1)) m.regs.pc).store .pc
          (m.toCore.load place) := rfl
    rw [pushed, Core.load_store_of_ne pc.symm, Core.load_store_of_ne fun same => other (congrArg _ same),
      Core.load_store_of_ne sp.symm]
  | rfi =>
    have popped : (m.applySpecial .rfi place).toCore =
        ((m.toCore.store .sp (m.regs.sp + 1 + 1)).store (.register .a) m.toCore.pop.1).store .pc
          m.toCore.pop.2.pop.1 := rfl
    rw [popped, Core.load_store_of_ne pc.symm, Core.load_store_of_ne (List.ne_of_not_mem_cons apart).symm,
      Core.load_store_of_ne sp.symm]
  | iag | hwn => exact Core.load_store_of_ne fun same => other (congrArg _ same)
  | ias =>
    cases l with
    | register r => cases r <;> rfl
    | _ => rfl
  | int => exact congrArg (·.load l) (toCore_raise _)
  | iaq => rfl
  | hwq =>
    simp only [applySpecial]
    split
    · rfl
    · cases l with
      | register r =>
        cases r with
        | a | b | c | x | y => exact absurd (by decide) apart
        | z | i | j => rfl
      | _ => rfl

theorem sp_applySpecial (hwi : op ≠ .hwi) (other : m.stored? op place ≠ some .sp) :
    (m.applySpecial op place).regs.sp = m.regs.sp + op.stackSteps := by
  cases op with
  | hwi => exact absurd rfl hwi
  | jsr => exact UInt16.sub_eq_add_neg ..
  | rfi => exact UInt16.add_assoc ..
  | iag | hwn =>
    refine Eq.trans ?_ (UInt16.add_zero _).symm
    exact Core.load_store_of_ne (k := .sp) fun same => other (congrArg _ same)
  | int => exact (congrArg (·.regs.sp) (toCore_raise _)).trans (UInt16.add_zero _).symm
  | hwq =>
    simp only [applySpecial]
    split <;> exact (UInt16.add_zero _).symm
  | ias | iaq => exact (UInt16.add_zero _).symm

theorem ia_applySpecial (hwi : op ≠ .hwi) (ias : op ≠ .ias) : (m.applySpecial op place).regs.ia = m.regs.ia := by
  cases op with
  | hwi => exact absurd rfl hwi
  | ias => exact absurd rfl ias
  | int => exact congrArg (·.regs.ia) (toCore_raise _)
  | iag | hwn => exact Core.ia_store
  | hwq => simp only [applySpecial]; split <;> rfl
  | jsr | rfi | iaq => rfl

theorem interrupts_special {a : Operand} (hwi : op ≠ .hwi) (quiet : Instruction.reachesQueue (.special op a) = false) :
    (m.special op a).interrupts = m.interrupts := by
  cases op with
  | hwi => exact absurd rfl hwi
  | int | rfi | iaq => cases quiet
  | hwq => simp only [special, applySpecial]; split <;> rfl
  | jsr | iag | ias | hwn => rfl

/-! ## All instructions -/

theorem keepsPlaces_basic {op : BasicOp} {b a : Operand} :
    m.KeepsPlaces (.basic op b a) ({ m with toCore := m.toCore.past }.execute (.basic op b a)) := by
  intro l pc sp other apart
  rw [toCore_execute_basic]
  calc (m.toCore.past.basic op b a).1.load l
    _ = (m.toCore.past.prepared b a).load l := Core.load_basic pc other apart
    _ = (m.toCore.past.after a).load l := Core.load_after_of_ne pc sp b
    _ = m.toCore.past.load l := Core.load_after_of_ne pc sp a
    _ = m.toCore.load l := Core.load_past pc

theorem keepsPlaces_special {a : Operand} (hwi : op ≠ .hwi) :
    m.KeepsPlaces (.special op a) ({ m with toCore := m.toCore.past }.execute (.special op a)) := by
  intro l pc sp other apart
  rw [← stored?_eq] at other
  rw [execute_special]
  exact (load_applySpecial hwi pc sp other apart).trans
    ((Core.load_after_of_ne pc sp a).trans (Core.load_past pc))

theorem test_basic {op : BasicOp} {b a : Operand} (h : op.isConditional) :
    let t := ({ m with toCore := m.toCore.past } : Machine δ).execute (.basic op b a)
    ∃ pc sp owed, t = { m with regs := { m.regs with pc, sp }, sleep := owed, status := t.status } := by
  intro t
  obtain ⟨-, p, moved⟩ | ⟨plain, -⟩ := Core.applyBasic_cases (s := m.toCore.past.prepared b a) op
    (m.toCore.past.destination b a) (m.toCore.past.source a)
  · have core : (m.toCore.past.basic op b a).1 =
        { m.toCore with regs := { m.regs with pc := p, sp := (m.toCore.past.prepared b a).regs.sp } } := by
      rw [Core.fst_basic, moved, Core.prepared_eq]
      rfl
    have executed : t = { m with
        toCore := (m.toCore.past.basic op b a).1, sleep := t.sleep, status := t.status } := charge_eq
    exact ⟨p, (m.toCore.past.prepared b a).regs.sp, t.sleep, executed.trans (by rw [core])⟩
  · cases h.symm.trans plain

theorem touchesOnly_basic {op : BasicOp} {b a : Operand} :
    m.TouchesOnly (.basic op b a) ({ m with toCore := m.toCore.past }.execute (.basic op b a)) := by
  have places : m.KeepsPlaces (.basic op b a) ({ m with toCore := m.toCore.past }.execute (.basic op b a)) :=
    keepsPlaces_basic
  have ia : (({ m with toCore := m.toCore.past } : Machine δ).execute (.basic op b a)).regs.ia = m.regs.ia := by
    rw [toCore_execute_basic]
    exact Core.ia_basic
  exact {
    memory := places.memory
    call := nofun
    test := test_basic
    literal := fun h => ⟨(places.literal h).1, ia, (places.literal h).2⟩
    register := fun other apart => places _ (by simp) (by simp) other apart
    sp := fun other => by
      have implied : .sp ∉ op.implied := by cases op <;> decide
      have behind := Core.load_basic (by simp) other implied
      rw [toCore_execute_basic]
      refine behind.trans ?_
      show (m.toCore.past.prepared b a).regs.sp = _
      rw [Core.prepared, Core.sp_after, Core.sp_after, UInt16.add_assoc]
      rfl
    ex := fun other apart => places .ex (by simp) (by simp) other apart
    ia := fun _ => ia
    queue := fun _ => interrupts_charge
    status := fun _ fits => status_charge fits
    others := ⟨cycles_charge, devices_charge⟩ }

theorem touchesOnly_special {a : Operand} (hwi : op ≠ .hwi) :
    m.TouchesOnly (.special op a) ({ m with toCore := m.toCore.past }.execute (.special op a)) := by
  have places := keepsPlaces_special (m := m) (a := a) hwi
  have ia (ias : op ≠ .ias) : (({ m with toCore := m.toCore.past } : Machine δ).special op a).regs.ia = m.regs.ia :=
    (ia_applySpecial hwi ias).trans (Core.ia_after a)
  rw [execute_special] at places ⊢
  exact {
    memory := places.memory
    call := by
      rintro _ ⟨⟩
      rfl
    test := nofun
    literal := fun h => by
      obtain ⟨mem, regs⟩ := places.literal h
      refine ⟨mem, ia ?_, regs⟩
      rintro rfl
      cases h
    register := fun other apart => places _ (by simp) (by simp) other apart
    sp := fun other => by
      rw [← stored?_eq] at other
      refine (sp_applySpecial hwi other).trans ?_
      show (m.toCore.past.after a).regs.sp + _ = _
      rw [Core.sp_after, UInt16.add_assoc]
      rfl
    ex := fun other apart => places .ex (by simp) (by simp) other apart
    ia := fun other => ia fun ias => other a (ias ▸ rfl)
    queue := fun other => interrupts_special hwi other
    status := fun other _ => congrArg QueueState.status
      (queueState_special { m with toCore := m.toCore.past } op a fun int => other a (int ▸ rfl))
    others := ⟨cycles_applySpecial _ _, devices_special hwi a⟩ }

end

/-- **Instructions touch only their destinations**: whatever the machine and the instruction at PC are, as long as that
is not HWI. -/
theorem touches_only_destinations {δ : Type} [Peripheral δ] {m : Machine δ} {i : Instruction}
    (decoded : Instruction.decode m.toCore.fetch = .ok i) (hwi : ∀ a, i ≠ .special .hwi a) :
    m.TouchesOnly i m.step.1 := by
  rw [step_of_ok decoded]
  cases i with
  | basic op b a => exact touchesOnly_basic
  | special op a => exact touchesOnly_special fun same => hwi a (same ▸ rfl)

/-- A machine that pops a word, adds it to what it pushes, and so doubles it. -/
def doubling : Machine Device where
  regs := { sp := 5 }
  mem := (Memory.blank.write 0 0x6302).write 5 0x8001

/-- SP is moved twice and comes back, and no other word of memory is touched. -/
theorem touches_only_destinations_of_doubling :
    doubling.step.1.regs.sp = 5 ∧ ∀ p ≠ 5, doubling.step.1.mem.read p = doubling.mem.read p := by
  have decoded : Instruction.decode doubling.toCore.fetch = .ok (.basic .add .push .pop) := by decide +kernel
  have target : doubling.toCore.past.target? (.basic .add .push .pop) = some (.memory 5) := by decide +kernel
  have touches := touches_only_destinations decoded (by rintro a ⟨⟩)
  refine ⟨touches.sp (by rw [target]; decide), fun p other => touches.memory ?_⟩
  rw [target]
  rintro ⟨⟩
  exact other rfl

end Machine

end Dcpu16
