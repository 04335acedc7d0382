import Dcpu16.Proofs.Cycle
import Dcpu16.Proofs.Except
import Dcpu16.Proofs.Instruction.Inverse

/-!
# Interrupts are transparent

When a message is delivered, A and PC of the interrupted program go onto the stack. A handler that comes to an RFI with
the stack as it was when it was entered gives them back, and SP with them. If more messages wait then, the next one is
delivered in the same cycle and finds the same A, PC and SP to save, at the same addresses; so however many messages are
handled in this way, the interrupted program goes on as if there had been none (`interrupts_transparent`).
-/

namespace Dcpu16

/-- What an interrupt takes from the interrupted program. -/
structure Context where
  a : Word
  pc : Word
  sp : Word
  deriving DecidableEq, Repr

/-- A, PC and SP. -/
def Registers.context (s : Registers) : Context := ⟨s.a, s.pc, s.sp⟩

/-- An operand other than PUSH and POP leaves all registers but PC alone. -/
theorem Core.regs_after {s : Core} {o : Operand} (push : o ≠ .push) (pop : o ≠ .pop) :
    (s.after o).regs = { s.regs with pc := (s.after o).regs.pc } := by
  cases o with
  | push => exact absurd rfl push
  | pop => exact absurd rfl pop
  | _ => rfl

namespace Machine

variable {δ : Type} [Peripheral δ]

/-! ## Entering and leaving a handler -/

/-- The message whose handler the machine enters in its next cycle. -/
def delivered? (m : Machine δ) : Option Word :=
  if m.Fetches ∧ m.executed.isRunning ∧ m.executed.regs.ia ≠ 0 then m.executed.interrupts.next.1 else none

/-- The machine executes an RFI in its next cycle. -/
def returning (m : Machine δ) : Bool :=
  m.Fetches && match Instruction.decode m.toCore.fetch with
    | .ok (.special .rfi _) => true
    | _ => false

/-- The handler has been entered with a message, and the context of the interrupted program is saved. -/
structure Entered (e : Machine δ) (c : Context) (msg : Word) : Prop where
  pc : e.regs.pc = e.regs.ia
  message : e.regs.a = msg
  sp : e.regs.sp = c.sp - 2
  savedA : e.mem.read (c.sp - 2) = c.a
  savedPc : e.mem.read (c.sp - 1) = c.pc
  queueing : e.interrupts.queueing

/-- The handler that was entered in `e` comes to its end in `r`, an RFI: SP is where it was, and the two saved words
are as they were. -/
structure Returns (e r : Machine δ) : Prop where
  fetches : r.Fetches
  rfi : ∃ o, Instruction.decode r.toCore.fetch = .ok (.special .rfi o) ∧ o ≠ .pop
  sp : r.regs.sp = e.regs.sp
  savedA : r.mem.read e.regs.sp = e.mem.read e.regs.sp
  savedPc : r.mem.read (e.regs.sp + 1) = e.mem.read (e.regs.sp + 1)

/-- **The next cycle of `r` restores a context.** -/
structure Restores (r : Machine δ) (c : Context) : Prop where
  regs : r.executed.regs = { r.regs with a := c.a, pc := c.pc, sp := c.sp }
  mem : r.executed.mem = r.mem
  queue : r.executed.interrupts = { r.interrupts with queueing := false }
  /-- If a message waits it is delivered in the same cycle, and the same context is saved at the same addresses. -/
  delivers {next : Word} {waiting : List Word} (pending : r.interrupts.pending = next :: waiting)
    (handler : r.regs.ia ≠ 0) : r.delivered? = some next ∧ r.cycle.1.Entered c next
  /-- Otherwise the interrupted program goes on. -/
  resumes (h : r.interrupts.pending = [] ∨ r.regs.ia = 0) :
    r.cycle.1.toCore = r.executed.toCore ∧ r.cycle.1.interrupts.queueing = false

section
variable {m e e' r : Machine δ} {c : Context} {msg : Word}

omit [Peripheral δ] in
theorem Entered.congr (h : e.Entered c msg) (core : e'.toCore = e.toCore)
    (queueing : e'.interrupts.queueing = e.interrupts.queueing) : e'.Entered c msg := by
  constructor <;> simp only [core, queueing, h.pc, h.message, h.sp, h.savedA, h.savedPc, h.queueing]

omit [Peripheral δ] in
theorem entered_deliver (h : m.interrupts.next.1 = some msg) (handler : m.regs.ia ≠ 0) :
    m.deliver.Entered m.regs.context msg := by
  have twice : m.regs.sp - 1 - 1 = m.regs.sp - 2 := by grind
  have apart : m.regs.sp - 2 ≠ m.regs.sp - 1 := by grind
  unfold deliver
  split
  · next hn => cases hn ▸ h
  · next hn =>
    cases hn ▸ h
    rw [if_neg handler]
    constructor <;> simp [Core.push, Registers.pushed, Registers.context, Memory.read_write, twice, apart]

theorem entered_cycle (h : m.delivered? = some msg) : m.cycle.1.Entered m.executed.regs.context msg := by
  unfold delivered? at h
  split at h
  · next delivers =>
    obtain ⟨fetches, running, handler⟩ := delivers
    have advanced : m.advanced = m.executed.deliver := by rw [advanced_of_awake m fetches.2, if_pos running]
    have entered := entered_deliver h handler
    rw [← advanced] at entered
    exact entered.congr (toCore_cycle fetches.1) (queueing_cycle fetches.1)
  · cases h

/-! ## The return -/

/-- What an RFI executes, wherever it stands. -/
theorem executed_of_rfi {o : Operand} (h : Instruction.decode m.toCore.fetch = .ok (.special .rfi o))
    (pop : o ≠ .pop) :
    m.executed.regs =
        { m.regs with a := m.mem.read m.regs.sp, pc := m.mem.read (m.regs.sp + 1), sp := m.regs.sp + 1 + 1 } ∧
      m.executed.mem = m.mem ∧ m.executed.interrupts = { m.interrupts with queueing := false } ∧
      m.executed.status = m.status := by
  have push : o ≠ .push := by
    rintro rfl
    exact Instruction.wellFormed_of_decode h
  have operand : (m.toCore.past.resolve o).2 = { m.regs with pc := (m.toCore.past.after o).regs.pc } :=
    Core.regs_after push pop
  rw [executed_of_ok h, execute_special]
  refine ⟨?_, rfl, rfl, rfl⟩
  simp only [special, applySpecial, Core.pop, operand]
  rfl

omit [Peripheral δ] in
theorem deliver_of_idle (h : m.interrupts.pending = [] ∨ m.regs.ia = 0) :
    m.deliver.toCore = m.toCore ∧ m.deliver.interrupts.queueing = m.interrupts.queueing := by
  obtain ⟨pending, queueing⟩ := m.interrupts.pending_next
  unfold deliver
  split
  · exact ⟨rfl, rfl⟩
  · next hn =>
    rw [hn] at pending queueing
    rcases h with none_waits | no_handler
    · cases none_waits.symm.trans pending
    · rw [if_pos no_handler]
      exact ⟨rfl, queueing⟩

/-- A handler that returns restores the context that was saved when it was entered. -/
theorem restores (entered : e.Entered c msg) (h : e.Returns r) : r.Restores c := by
  obtain ⟨o, rfi, pop⟩ := h.rfi
  obtain ⟨regs, mem, queue, status⟩ := executed_of_rfi rfi pop
  -- A was pushed last, so it lies at SP and PC above it
  have between : c.sp - 2 + 1 = c.sp - 1 := by grind
  have a : r.mem.read r.regs.sp = c.a := by rw [h.sp, h.savedA, entered.sp, entered.savedA]
  have pc : r.mem.read (r.regs.sp + 1) = c.pc := by rw [h.sp, h.savedPc, entered.sp, between, entered.savedPc]
  have sp : r.regs.sp + 1 + 1 = c.sp := by rw [h.sp, entered.sp]; grind
  rw [a, pc, sp] at regs
  have running : r.executed.isRunning := r.executed.isRunning_iff.mpr (status.trans h.fetches.1)
  refine ⟨regs, mem, queue, fun {next waiting} pending handler => ?_, fun idle => ?_⟩
  · have delivered : r.delivered? = some next := by
      have handler : r.executed.regs.ia ≠ 0 := by rw [regs]; exact handler
      rw [delivered?, if_pos ⟨h.fetches, running, handler⟩, queue]
      simp only [InterruptQueue.next, pending]
    have entered := entered_cycle delivered
    rw [regs] at entered
    exact ⟨delivered, entered⟩
  · have idle : r.executed.interrupts.pending = [] ∨ r.executed.regs.ia = 0 := by rw [queue, regs]; exact idle
    obtain ⟨core, queueing⟩ := deliver_of_idle idle
    rw [toCore_cycle h.fetches.1, queueing_cycle h.fetches.1, advanced_of_awake r h.fetches.2, if_pos running, core,
      queueing, queue]
    exact ⟨rfl, rfl⟩

/-! ## Messages handled back to back -/

/-- How many handlers are entered and not left behind a call; nothing if it executes an instruction outside of them. -/
def nestingBehind? (m : Machine δ) (depth : Nat) : Call → Option Nat
  | .cycle =>
    if m.Fetches ∧ depth = 0 then none
    else some ((if m.returning then depth - 1 else depth) + m.delivered?.toList.length)
  | _ => some depth

/-- How many handlers are entered and not left behind calls; nothing if they execute an instruction outside of them. -/
def nesting? (m : Machine δ) (depth : Nat) : List Call → Option Nat
  | [] => some depth
  | call :: calls => (m.nestingBehind? depth call).bind fun depth => (m.perform call).nesting? depth calls

/-- Calls lead from where a handler is entered to where it returns, and execute nothing outside of it. -/
structure Handles (e : Machine δ) (calls : List Call) : Prop where
  inside : e.nesting? 1 calls = some 1
  returns : e.Returns (e.performAll calls)

/-- Calls handle `k` messages, one behind the other: from where the first handler is entered to where the last one
returns. Whenever one returns and another message is to be handled, that waits and there is a handler. -/
inductive BackToBack : Machine δ → (k : Nat) → List Call → Machine δ → Prop
  | last {e : Machine δ} {calls : List Call} (handles : e.Handles calls) : BackToBack e 1 calls (e.performAll calls)
  | next {e r : Machine δ} {k : Nat} {calls later : List Call} (handles : e.Handles calls)
    (pending : (e.performAll calls).interrupts.pending ≠ []) (handler : (e.performAll calls).regs.ia ≠ 0)
    (rest : BackToBack (e.performAll calls).cycle.1 k later r) : BackToBack e (k + 1) (calls ++ .cycle :: later) r

theorem performAll_append (xs ys : List Call) : m.performAll (xs ++ ys) = (m.performAll xs).performAll ys :=
  List.foldl_append

theorem nesting?_append (depth : Nat) (xs ys : List Call) :
    m.nesting? depth (xs ++ ys) = (m.nesting? depth xs).bind fun depth => (m.performAll xs).nesting? depth ys := by
  induction xs generalizing m depth with
  | nil => rfl
  | cons x xs ih =>
    rw [List.cons_append, nesting?, nesting?, Option.bind_assoc]
    simp only [ih]
    rfl

/-- Where a handler returns and the next one is entered in the same cycle, nothing is executed between them. -/
theorem nestingBehind?_of_delivers (h : e.Returns r) (delivers : r.delivered? = some msg) :
    r.nestingBehind? 1 .cycle = some 1 := by
  obtain ⟨o, rfi, -⟩ := h.rfi
  have returning : r.returning := by simp [Machine.returning, h.fetches, rfi]
  -- the RFI leaves the only handler, and the delivery behind it enters the next one
  simp [nestingBehind?, returning, delivers]

theorem restores_of_backToBack {k : Nat} {calls : List Call} (entered : e.Entered c msg)
    (h : BackToBack e k calls r) : r = e.performAll calls ∧ e.nesting? 1 calls = some 1 ∧ r.Restores c := by
  induction h generalizing msg with
  | last handles => exact ⟨rfl, handles.inside, restores entered handles.returns⟩
  | @next e r k calls later handles pending handler rest ih =>
    obtain ⟨next, waiting, pending⟩ := List.exists_cons_of_ne_nil pending
    obtain ⟨delivers, entered_next⟩ := (restores entered handles.returns).delivers pending handler
    obtain ⟨reached, inside, restored⟩ := ih entered_next
    refine ⟨?_, ?_, restored⟩
    · rw [reached, performAll_append]
      rfl
    · rw [nesting?_append, handles.inside, Option.bind_some, nesting?,
        nestingBehind?_of_delivers handles.returns delivers, Option.bind_some]
      exact inside

end

/-- **Interrupts are transparent.** Let a message be delivered. Wherever the handler returns with the stack as it was,
the A, PC and SP of the interrupted program are restored; and so they are where the last of any number of messages has
been handled, with nothing executed in between but the handlers. -/
theorem interrupts_transparent {m : Machine δ} {msg : Word} (h : m.delivered? = some msg) :
    m.cycle.1.Entered m.executed.regs.context msg ∧
      (∀ r, m.cycle.1.Returns r → r.Restores m.executed.regs.context) ∧
      ∀ k calls r, BackToBack m.cycle.1 k calls r →
        r = m.cycle.1.performAll calls ∧ m.cycle.1.nesting? 1 calls = some 1 ∧ r.Restores m.executed.regs.context := by
  have entered := entered_cycle h
  exact ⟨entered, fun _ => restores entered, fun _ _ _ => restores_of_backToBack entered⟩

/-- Two messages wait, and the handler is a lone RFI. -/
def ringing : Machine Device where
  regs := { ia := 2, sp := 8 }
  mem := (Memory.blank.write 0 0x8801).write 2 0x8560
  interrupts := { pending := [5, 9] }

/-- Behind SET A, 1 both messages are handled, and then the program goes on at address one. -/
theorem interrupts_transparent_of_ringing :
    ringing.delivered? = some 5 ∧ (ringing.cycle.1.performAll [.cycle, .cycle, .cycle]).Restores ⟨1, 1, 8⟩ := by
  have delivered : ringing.delivered? = some 5 := by decide +kernel
  have context : ringing.executed.regs.context = ⟨1, 1, 8⟩ := by decide +kernel
  obtain ⟨-, -, backToBack⟩ := interrupts_transparent delivered
  have first : ringing.cycle.1.Handles [] :=
    ⟨rfl, by decide +kernel, ⟨.literal 0, eq_ok_of_toOption (by decide +kernel), by decide⟩, rfl, rfl, rfl⟩
  have second : (ringing.cycle.1.performAll []).cycle.1.Handles [.cycle, .cycle] :=
    ⟨by decide +kernel, by decide +kernel, ⟨.literal 0, eq_ok_of_toOption (by decide +kernel), by decide⟩,
      by decide +kernel, by decide +kernel, by decide +kernel⟩
  have pending : (ringing.cycle.1.performAll []).interrupts.pending ≠ [] := by decide +kernel
  have handler : (ringing.cycle.1.performAll []).regs.ia ≠ 0 := by decide +kernel
  have both := BackToBack.next first pending handler (BackToBack.last second)
  obtain ⟨reached, -, restored⟩ := backToBack _ _ _ both
  rw [reached, context] at restored
  exact ⟨delivered, restored⟩

end Machine

end Dcpu16
