import Dcpu16.Proofs.Arithmetic
import Dcpu16.Proofs.Interrupts.Return

/-!
# The stack

SET PUSH, x and JSR x put a word on the stack, SET with POP takes one off it. However these are nested, and wherever SP
starts, they do what they would do to a list of words (`StackEvent.replay`), as long as no more words are pushed than
memory has and nothing else disturbs them. So a pop gives the word of the push that it belongs to, and a call comes back
behind its JSR (`Machine.stack_lifo`).
-/

namespace Dcpu16

/-- A word goes onto the stack, or comes off it. -/
inductive StackEvent
  | push (v : Word)
  | pop (v : Word)
  deriving DecidableEq, Repr

namespace StackEvent

/-- How many words go onto the stack. -/
def pushes (es : List StackEvent) : Nat := es.countP (· matches push _)

/-- How many words come off it. -/
def pops (es : List StackEvent) : Nat := es.countP (· matches pop _)

/-- There are as many pops as pushes, and up to any point there are no more. -/
structure Balanced (es : List StackEvent) : Prop where
  closed : pops es = pushes es
  upTo (k : Nat) : pops (es.take k) ≤ pushes (es.take k)

/-- **Last in, first out**: each pop gives the word of the push that it belongs to, the one with only pushes and their
pops in between. -/
structure Lifo (es : List StackEvent) : Prop where
  /-- To each pop there is such a push. -/
  matched {before after : List StackEvent} {w : Word} (pops : es = before ++ pop w :: after) :
    ∃ outer inner, before = outer ++ push w :: inner ∧ Balanced inner
  /-- No push that it could belong to has another word. -/
  same {outer inner after : List StackEvent} {v w : Word} (pops : es = outer ++ push v :: (inner ++ pop w :: after))
    (between : Balanced inner) : w = v

/-- What a stack of words holds behind events, the top in front; nothing if a pop gives something else than it. -/
def replay : List Word → List StackEvent → Option (List Word)
  | vs, [] => some vs
  | vs, push v :: es => replay (v :: vs) es
  | v :: vs, pop w :: es => if w = v then replay vs es else none
  | [], pop _ :: _ => none

/-! ## A stack of words -/

section
variable {us vs ws : List Word} {v w : Word} {es fs inner : List StackEvent}

@[simp]
theorem pushes_nil : pushes [] = 0 := rfl

@[simp]
theorem pops_nil : pops [] = 0 := rfl

@[simp]
theorem pushes_push : pushes (push v :: es) = pushes es + 1 := List.countP_cons_of_pos rfl

@[simp]
theorem pushes_pop : pushes (pop w :: es) = pushes es := List.countP_cons_of_neg Bool.false_ne_true

@[simp]
theorem pops_push : pops (push v :: es) = pops es := List.countP_cons_of_neg Bool.false_ne_true

@[simp]
theorem pops_pop : pops (pop w :: es) = pops es + 1 := List.countP_cons_of_pos rfl

@[simp]
theorem pushes_append : pushes (es ++ fs) = pushes es + pushes fs := List.countP_append

@[simp]
theorem pops_append : pops (es ++ fs) = pops es + pops fs := List.countP_append

theorem Balanced.nil : Balanced [] := ⟨rfl, by simp⟩

theorem Balanced.append (first : Balanced es) (second : Balanced fs) : Balanced (es ++ fs) where
  closed := by rw [pops_append, pushes_append, first.closed, second.closed]
  upTo k := by
    rw [List.take_append, pops_append, pushes_append]
    exact Nat.add_le_add (first.upTo k) (second.upTo _)

theorem Balanced.wrap (h : Balanced inner) : Balanced (push v :: (inner ++ [pop w])) where
  closed := by simp [h.closed]
  upTo k := by
    cases k with
    | zero => exact Nat.le_refl 0
    | succ k =>
      -- the push makes up for the pop at the end
      have inside := h.upTo k
      have last : pops (List.take (k - inner.length) [pop w]) ≤ 1 :=
        Nat.le_trans List.countP_le_length (List.length_take_le' ..)
      rw [List.take_succ_cons, List.take_append, pops_push, pushes_push, pops_append, pushes_append]
      omega

theorem replay_append (vs : List Word) (es fs : List StackEvent) :
    replay vs (es ++ fs) = (replay vs es).bind (replay · fs) := by
  induction es generalizing vs with
  | nil => rfl
  | cons e es ih =>
    cases e with
    | push v => exact ih _
    | pop w =>
      cases vs with
      | nil => rfl
      | cons v vs =>
        rw [List.cons_append, replay, replay, ih]
        split <;> rfl

theorem replay_pop : replay vs (pop w :: es) = some ws ↔ ∃ rest, vs = w :: rest ∧ replay rest es = some ws := by
  cases vs with
  | nil => simp [replay]
  | cons v vs =>
    rw [replay]
    split
    · next same => simp [same]
    · next other => simp [Ne.symm other]

theorem length_of_replay (h : replay vs es = some ws) : ws.length + pops es = vs.length + pushes es := by
  induction es generalizing vs with
  | nil =>
    cases h
    rfl
  | cons e es ih =>
    cases e with
    | push v =>
      have left : replay (v :: vs) es = some ws := h
      rw [pops_push, pushes_push, ih left, List.length_cons, Nat.add_right_comm, Nat.add_assoc]
    | pop w =>
      obtain ⟨rest, rfl, left⟩ := replay_pop.mp h
      rw [pops_pop, pushes_pop, List.length_cons, Nat.add_right_comm, ← ih left, Nat.add_assoc]

/-- Events that empty the stack which they found empty are balanced. -/
theorem balanced_of_replay (h : replay [] es = some []) : Balanced es where
  closed := by simpa using length_of_replay h
  upTo k := by
    rw [← List.take_append_drop k es, replay_append] at h
    obtain ⟨vs, before, -⟩ := Option.bind_eq_some_iff.mp h
    have := length_of_replay before
    rw [List.length_nil] at this
    omega

/-- Events that take no more words off a stack than are above some of its words leave these where they are. -/
theorem replay_above (h : replay (us ++ vs) es = some ws)
    (above : ∀ k, pops (es.take k) ≤ us.length + pushes (es.take k)) : ∃ top, ws = top ++ vs := by
  induction es generalizing us with
  | nil => exact ⟨us, (Option.some.inj h).symm⟩
  | cons e es ih =>
    have later := fun k => above (k + 1)
    cases e with
    | push v =>
      simp only [List.take_succ_cons, pops_push, pushes_push] at later
      have left : replay ((v :: us) ++ vs) es = some ws := h
      refine ih left fun k => ?_
      rw [List.length_cons, Nat.add_right_comm]
      exact later k
    | pop w =>
      simp only [List.take_succ_cons, pops_pop, pushes_pop] at later
      cases us with
      | nil => exact absurd (later 0) (Nat.not_succ_le_zero _)
      | cons u us =>
        obtain ⟨rest, popped, h⟩ := replay_pop.mp h
        cases popped
        refine ih h fun k => ?_
        have := later k
        rw [List.length_cons] at this
        omega

/-- Balanced events leave the stack as it was. -/
theorem replay_of_balanced (h : replay vs inner = some ws) (between : Balanced inner) : ws = vs := by
  have bottom : replay ([] ++ vs) inner = some ws := h
  obtain ⟨top, rfl⟩ := replay_above bottom fun k => by
    rw [List.length_nil, Nat.zero_add]
    exact between.upTo k
  have lengths := length_of_replay h
  rw [between.closed, List.length_append] at lengths
  have none_above : top = [] := List.eq_nil_of_length_eq_zero (by omega)
  rw [none_above, List.nil_append]

/-- The top of a stack that was empty has been pushed, and what came behind that is balanced. -/
theorem exists_push (h : replay [] es = some (v :: vs)) :
    ∃ outer inner, es = outer ++ push v :: inner ∧ Balanced inner ∧ replay [] outer = some vs := by
  induction hn : es.length using Nat.strongRecOn generalizing es v vs with
  | ind n ih =>
  subst hn
  rcases List.eq_nil_or_concat es with rfl | ⟨front, e, rfl⟩
  · cases h
  · rw [List.concat_eq_append] at h ih ⊢
    rw [replay_append] at h
    obtain ⟨us, before, last⟩ := Option.bind_eq_some_iff.mp h
    have shorter : front.length < (front ++ [e]).length := by simp
    cases e with
    | push u =>
      cases last
      exact ⟨front, [], rfl, .nil, before⟩
    | pop w =>
      obtain ⟨rest, rfl, left⟩ := replay_pop.mp last
      cases left
      -- the word that is popped last was pushed on top of the one that is left
      obtain ⟨middle, inner, rfl, between, below⟩ := ih _ shorter before rfl
      have shorter' : middle.length < (middle ++ push w :: inner ++ [pop w]).length := by
        simp only [List.length_append, List.length_cons]
        omega
      obtain ⟨outer, inner', rfl, between', below'⟩ := ih _ shorter' below rfl
      refine ⟨outer, inner' ++ push w :: (inner ++ [pop w]), ?_, between'.append between.wrap, below'⟩
      simp

/-- The word that is popped behind balanced events is the one that was pushed in front of them. -/
theorem eq_of_replay (outer : List StackEvent) {after : List StackEvent}
    (h : replay vs (outer ++ push v :: (inner ++ pop w :: after)) = some ws) (between : Balanced inner) : w = v := by
  rw [replay_append] at h
  obtain ⟨us, -, h⟩ := Option.bind_eq_some_iff.mp h
  rw [replay, replay_append] at h
  obtain ⟨us', inside, last⟩ := Option.bind_eq_some_iff.mp h
  obtain ⟨rest, popped, -⟩ := replay_pop.mp last
  rw [replay_of_balanced inside between] at popped
  exact (List.cons.inj popped).1.symm

theorem lifo_of_replay (h : replay [] es = some ws) : Lifo es where
  matched pops := by
    subst pops
    rw [replay_append] at h
    obtain ⟨vs, before, last⟩ := Option.bind_eq_some_iff.mp h
    obtain ⟨rest, rfl, -⟩ := replay_pop.mp last
    obtain ⟨outer, inner, split, between, -⟩ := exists_push before
    exact ⟨outer, inner, split, between⟩
  same pops between := eq_of_replay _ (pops ▸ h) between

end

end StackEvent

/-! ## What the instructions do -/

/-- The place in the registers that a destination names, apart from SP. -/
def Operand.receiver? : Operand → Option Location
  | .register r => some (.register r)
  | .pc => some .pc
  | .ex => some .ex
  | _ => none

namespace Core

variable {s t : Core} {x b : Operand} {place : Location} {v : Word} {vs : List Word} {depth : Nat}

/-- SP stays where it is, and as many words from there on stay as they are. -/
def LeavesStack (s : Core) (depth : Nat) (t : Core) : Prop :=
  t.regs.sp = s.regs.sp ∧ t.mem.block t.regs.sp depth = s.mem.block s.regs.sp depth

/-- The words are on the stack, its top in front. -/
def Stacked (s : Core) (vs : List Word) : Prop := s.mem.block s.regs.sp vs.length = vs

/-- **SET PUSH, x pushes** what x stands for before that. -/
theorem set_push (push : x ≠ .push) (pop : x ≠ .pop) :
    (s.basic .set .push x).1.regs.sp = (s.push (s.source x)).regs.sp ∧
      (s.basic .set .push x).1.mem = (s.push (s.source x)).mem := by
  cases x with
  | push => exact absurd rfl push
  | pop => exact absurd rfl pop
  | _ => exact ⟨rfl, rfl⟩

/-- **SET b, POP pops** into a register. -/
theorem set_pop (register : b.receiver? = some place) :
    (s.basic .set b .pop).1.load place = s.pop.1 ∧
      (s.basic .set b .pop).1.regs.sp = s.pop.2.regs.sp ∧ (s.basic .set b .pop).1.mem = s.pop.2.mem := by
  cases b with
  | register r =>
    cases register
    refine ⟨?_, ?_, rfl⟩
    · cases r <;> rfl
    · cases r <;> rfl
  | pc | ex =>
    cases register
    exact ⟨rfl, rfl, rfl⟩
  | _ => cases register

theorem Stacked.of_leavesStack (h : s.Stacked vs) (leaves : s.LeavesStack vs.length t) : t.Stacked vs :=
  leaves.2.trans h

/-- A word that is pushed comes in front of the others, unless they are all that memory has. -/
theorem Stacked.push (h : s.Stacked vs) (room : vs.length < Word.count) (sp : t.regs.sp = (s.push v).regs.sp)
    (mem : t.mem = (s.push v).mem) : t.Stacked (v :: vs) := by
  have behind : (s.push v).regs.sp + 1 = s.regs.sp := UInt16.sub_add_cancel s.regs.sp 1
  have apart : ∀ k < vs.length, s.regs.sp + UInt16.ofNat k ≠ (s.push v).regs.sp := by
    intro k hk around
    have wraps : UInt16.ofNat (k + 1) = UInt16.ofNat 0 := by
      rw [UInt16.ofNat_add, ← UInt16.add_right_inj s.regs.sp, ← UInt16.add_assoc, around]
      exact behind.trans (UInt16.add_zero _).symm
    rw [Memory.ofNat_eq_iff (Nat.lt_of_le_of_lt hk room) (by decide)] at wraps
    cases wraps
  unfold Stacked at h ⊢
  rw [mem, sp, List.length_cons, Memory.block_succ, behind]
  show (s.mem.write (s.push v).regs.sp v).read _ :: (s.mem.write (s.push v).regs.sp v).block _ _ = _
  rw [Memory.read_write, if_pos rfl, Memory.block_write _ apart, h]

theorem Stacked.pop (h : s.Stacked (v :: vs)) (sp : t.regs.sp = s.pop.2.regs.sp) (mem : t.mem = s.pop.2.mem) :
    s.pop.1 = v ∧ t.Stacked vs := by
  unfold Stacked at h ⊢
  rw [List.length_cons, Memory.block_succ, List.cons.injEq] at h
  rw [mem, sp]
  exact h

end Core

namespace Machine

open StackEvent

variable {δ : Type} [Peripheral δ]

/-- What the instruction at PC does to the stack, if it is one of those that use it for calls and data: the word that a
source stands for or the address behind a call is pushed, and what a register receives has been popped. -/
def stackEvent? (m : Machine δ) : Option StackEvent :=
  match Instruction.decode m.toCore.fetch with
  | .ok (.basic .set .push x) => if x = .pop then none else some (.push (m.toCore.past.source x))
  | .ok (.special .jsr x) =>
    if x = .pop then none else some (.push (m.regs.pc + UInt16.ofNat (Instruction.special .jsr x).size))
  | .ok (.basic .set b .pop) => b.receiver?.map fun place => .pop (m.step.1.toCore.load place)
  | _ => none

/-- **A run of stack instructions**, from the depth of nesting at its start to the one at its end. Each executes in one
step; between them anything may happen that leaves the words that have been pushed where they are. -/
inductive StackRun : (depth : Nat) → (m : Machine δ) → List StackEvent → (depth' : Nat) → (m' : Machine δ) → Prop
  | done (depth : Nat) (m : Machine δ) : StackRun depth m [] depth m
  | beside {depth depth' : Nat} {m next m' : Machine δ} {es : List StackEvent}
    (leaves : m.toCore.LeavesStack depth next.toCore) (rest : StackRun depth next es depth' m') :
    StackRun depth m es depth' m'
  | push {depth depth' : Nat} {m m' : Machine δ} {v : Word} {es : List StackEvent} (room : depth < Word.count)
    (pushes : m.stackEvent? = some (.push v)) (rest : StackRun (depth + 1) m.step.1 es depth' m') :
    StackRun depth m (.push v :: es) depth' m'
  | pop {depth depth' : Nat} {m m' : Machine δ} {w : Word} {es : List StackEvent}
    (pops : m.stackEvent? = some (.pop w)) (rest : StackRun depth m.step.1 es depth' m') :
    StackRun (depth + 1) m (.pop w :: es) depth' m'

section
variable {m m' m'' c r : Machine δ} {v w : Word} {es fs inner : List StackEvent} {depth depth' depth'' : Nat}
  {vs : List Word} {x : Operand}

/-! ## Steps -/

theorem step_of_set {b a : Operand} (h : Instruction.decode m.toCore.fetch = .ok (.basic .set b a)) :
    m.step.1.toCore = (m.toCore.past.basic .set b a).1 := by
  rw [step_of_ok h, toCore_execute_basic]

/-- JSR x pushes the address behind it. -/
theorem step_of_jsr (h : Instruction.decode m.toCore.fetch = .ok (.special .jsr x)) (pop : x ≠ .pop) :
    m.step.1.regs.sp = m.regs.sp - 1 ∧
      m.step.1.mem =
        m.mem.write (m.regs.sp - 1) (m.regs.pc + UInt16.ofNat (Instruction.special .jsr x).size) := by
  have push : x ≠ .push := by
    rintro rfl
    exact Instruction.wellFormed_of_decode h
  have sp : (m.toCore.past.after x).regs.sp = m.regs.sp := by rw [Core.regs_after push pop]; rfl
  have mem : (m.toCore.past.after x).mem = m.mem := (m.toCore.past.takes x).mem
  have behind := m.toCore.pc_resolved (.special .jsr x)
  rw [step_of_ok h, execute_special, ← behind, ← sp, ← mem]
  exact ⟨rfl, rfl⟩

theorem step_of_push (h : m.stackEvent? = some (.push v)) :
    m.step.1.regs.sp = (m.toCore.push v).regs.sp ∧ m.step.1.mem = (m.toCore.push v).mem := by
  unfold stackEvent? at h
  split at h
  · next x decoded =>
    split at h
    · cases h
    · next pop =>
      cases h
      have push : x ≠ .push := by
        rintro rfl
        exact (Instruction.wellFormed_of_decode decoded).2
      rw [step_of_set decoded]
      exact Core.set_push push pop
  · next x decoded =>
    split at h
    · cases h
    · next pop =>
      cases h
      exact step_of_jsr decoded pop
  · next b decoded =>
    obtain ⟨place, -, pops⟩ := Option.map_eq_some_iff.mp h
    cases pops
  · cases h

theorem step_of_pop (h : m.stackEvent? = some (.pop w)) :
    w = m.toCore.pop.1 ∧ m.step.1.regs.sp = m.toCore.pop.2.regs.sp ∧ m.step.1.mem = m.toCore.pop.2.mem := by
  unfold stackEvent? at h
  split at h
  · split at h <;> cases h
  · split at h <;> cases h
  · next b decoded =>
    obtain ⟨place, register, pops⟩ := Option.map_eq_some_iff.mp h
    cases pops
    rw [step_of_set decoded]
    exact Core.set_pop register
  · cases h

/-! ## Runs -/

theorem StackRun.trans (h : StackRun depth m es depth' m') (next : StackRun depth' m' fs depth'' m'') :
    StackRun depth m (es ++ fs) depth'' m'' := by
  induction h with
  | done => exact next
  | beside leaves _ ih => exact .beside leaves (ih next)
  | push room pushes _ ih => exact .push room pushes (ih next)
  | pop pops _ ih => exact .pop pops (ih next)

/-- A run does to the words on the stack what its events do to a list of them. -/
theorem StackRun.replay (h : StackRun depth m es depth' m') (stacked : m.toCore.Stacked vs)
    (nested : vs.length = depth) : ∃ ws, replay vs es = some ws ∧ m'.toCore.Stacked ws ∧ ws.length = depth' := by
  induction h generalizing vs with
  | done => exact ⟨vs, rfl, stacked, nested⟩
  | beside leaves _ ih =>
    subst nested
    exact ih (stacked.of_leavesStack leaves) rfl
  | push room pushes _ ih =>
    subst nested
    obtain ⟨sp, mem⟩ := step_of_push pushes
    exact ih (stacked.push room sp mem) rfl
  | pop pops _ ih =>
    obtain ⟨popped, sp, mem⟩ := step_of_pop pops
    cases vs with
    | nil => cases nested
    | cons v vs =>
      obtain ⟨top, stacked⟩ := stacked.pop sp mem
      obtain ⟨ws, rest, held⟩ := ih stacked (Nat.succ.inj nested)
      refine ⟨ws, ?_, held⟩
      rw [StackEvent.replay, if_pos (popped.trans top), rest]

/-- SP is as far below its start as words have been pushed and not popped. -/
theorem StackRun.sp (h : StackRun depth m es depth' m') :
    m'.regs.sp + UInt16.ofNat depth' = m.regs.sp + UInt16.ofNat depth := by
  induction h with
  | done => rfl
  | beside leaves _ ih => rw [ih, leaves.1]
  | push _ pushes _ ih =>
    rw [ih, (step_of_push pushes).1, ← Memory.ofNat_succ]
    simp only [Core.push, Registers.pushed]
    grind
  | pop pops _ ih =>
    rw [ih, (step_of_pop pops).2.1, ← Memory.ofNat_succ]
    simp only [Core.pop, Registers.popped]
    grind

end

/-- **The stack is last in, first out**, for data and calls alike and wherever SP starts: in a run of balanced stack
instructions each pop gives the word of the push that it belongs to, and SP ends where it was. So a subroutine that
comes to SET PC, POP with the stack balanced goes on behind the JSR that called it. -/
theorem stack_lifo :
    (∀ {m m' : Machine δ} {es : List StackEvent}, StackRun 0 m es 0 m' →
      Balanced es ∧ Lifo es ∧ m'.regs.sp = m.regs.sp) ∧
      ∀ {depth : Nat} {c r : Machine δ} {x : Operand} {inner : List StackEvent}, depth < Word.count →
        Instruction.decode c.toCore.fetch = .ok (.special .jsr x) → x ≠ .pop →
        StackRun (depth + 1) c.step.1 inner (depth + 1) r → Balanced inner →
        Instruction.decode r.toCore.fetch = .ok (.basic .set .pc .pop) →
        r.step.1.regs.pc = c.regs.pc + UInt16.ofNat (Instruction.special .jsr x).size ∧
          r.step.1.regs.sp = c.regs.sp := by
  constructor
  · intro m m' es run
    have stacked : m.toCore.Stacked [] := rfl
    obtain ⟨ws, replayed, -, empty⟩ := run.replay stacked rfl
    have lifo := lifo_of_replay replayed
    rw [List.eq_nil_of_length_eq_zero empty] at replayed
    exact ⟨balanced_of_replay replayed, lifo, by simpa using run.sp⟩
  · intro depth c r x inner room jsr pop body between ret
    have pushes : c.stackEvent? = some (.push (c.regs.pc + UInt16.ofNat (Instruction.special .jsr x).size)) := by
      simp only [stackEvent?, jsr, if_neg pop]
    have pops : r.stackEvent? = some (.pop r.step.1.regs.pc) := by
      simp only [stackEvent?, ret]
      rfl
    have whole := StackRun.push room pushes (body.trans (.pop pops (.done depth _)))
    -- what is on the stack at the call does not matter
    have stacked : c.toCore.Stacked (c.mem.block c.regs.sp depth) := by rw [Core.Stacked, Memory.length_block]
    obtain ⟨ws, replayed, -⟩ := whole.replay stacked (Memory.length_block ..)
    exact ⟨eq_of_replay [] replayed between, (UInt16.add_left_inj _).mp whole.sp⟩

/-- The machine behind some instructions. -/
def afterInstructions (m : Machine δ) : (n : Nat) → Machine δ
  | 0 => m
  | n + 1 => (m.afterInstructions n).step.1

/-- A program that keeps a word on the stack while it calls a subroutine, which keeps A there for a while. -/
def calling : Machine Device where
  mem := Memory.blank.writeFrom 0 [0xa301, 0x7c20, 0x0005, 0x6021, 0x0000, 0x0301, 0x8801, 0x6041, 0x6381]
  regs := { a := 9, sp := 0x20 }

/-- The subroutine finds its word again and comes back behind the JSR and its next word, and the first word is the last
to come off. -/
theorem stack_lifo_of_calling :
    StackRun 0 calling [.push 7, .push 3, .push 9, .pop 9, .pop 3, .pop 7] 0 (calling.afterInstructions 7) ∧
      Lifo [.push 7, .push 3, .push 9, .pop 9, .pop 3, .pop 7] ∧
      (calling.afterInstructions 7).regs.sp = 0x20 ∧ (calling.afterInstructions 6).regs.pc = 3 := by
  -- SET A, 1 in the subroutine is no stack instruction, but leaves the three words where they are
  have kept : (calling.afterInstructions 3).toCore.LeavesStack 3 (calling.afterInstructions 4).toCore :=
    ⟨by decide +kernel, by decide +kernel⟩
  have inner : StackRun 2 (calling.afterInstructions 2) [.push 9, .pop 9] 2 (calling.afterInstructions 5) :=
    .push (by decide) (by decide +kernel) (.beside kept (.pop (by decide +kernel) (.done 2 _)))
  have whole : StackRun 0 calling [.push 7, .push 3, .push 9, .pop 9, .pop 3, .pop 7] 0 (calling.afterInstructions 7) :=
    .push (by decide) (by decide +kernel) (.push (by decide) (by decide +kernel)
      (inner.trans (.pop (by decide +kernel) (.pop (by decide +kernel) (.done 0 _)))))
  have jsr : (calling.afterInstructions 1).toCore.fetch = 0x7c20 := by decide +kernel
  have ret : (calling.afterInstructions 5).toCore.fetch = 0x6381 := by decide +kernel
  have address : (calling.afterInstructions 1).regs.pc = 1 := by decide +kernel
  obtain ⟨runs, calls⟩ := stack_lifo (δ := Device)
  obtain ⟨-, lifo, sp⟩ := runs whole
  obtain ⟨resumes, -⟩ := calls (x := .next) (by decide) (by rw [jsr]; rfl) (by decide) inner (Balanced.nil.wrap)
    (by rw [ret]; rfl)
  refine ⟨whole, lifo, sp, resumes.trans ?_⟩
  rw [address]
  rfl

end Machine

end Dcpu16
