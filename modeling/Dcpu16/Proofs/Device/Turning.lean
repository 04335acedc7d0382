import Dcpu16.Proofs.Device.Widths

/-!
# A display turns the shorter way

A display whose angle is not its target owes cycles: 2000 for each degree of the shorter way, less those that were
counted towards the next degree already (`Display.owed`). Every cycle pays one of them, commands other than a new target
pay none, and the target is reached with the last one (`turns_shorter_way`).
-/

namespace Dcpu16

/-- What is asked of a display; it sees the registers with a command. -/
inductive DisplayCall
  | cycle
  | command (regs : Registers)
  deriving DecidableEq, Repr

/-- A call sets the target angle. -/
def DisplayCall.Rotates : DisplayCall → Prop
  | cycle => False
  | command regs => regs.a = 2

instance : DecidablePred DisplayCall.Rotates
  | .cycle => inferInstanceAs (Decidable False)
  | .command regs => inferInstanceAs (Decidable (regs.a = 2))

namespace Display

/-- The display behind a call. -/
def perform (d : Display) : DisplayCall → Display
  | .cycle => d.cycle
  | .command regs => (d.interrupt regs).1

/-- The display behind calls. -/
def performAll (d : Display) (calls : List DisplayCall) : Display := calls.foldl perform d

/-! ## The shorter way -/

/-- The degrees from an angle upwards to another. -/
def degreesUp (angle other : Nat) : Nat := (other + 360 - angle) % 360

/-- The degrees from the angle of a display to its target, by the shorter way. -/
def distance (d : Display) : Nat := min (degreesUp d.rotation d.target) (degreesUp d.target d.rotation)

/-- The way upwards is not longer than the way downwards. -/
def Upwards (d : Display) : Prop := degreesUp d.rotation d.target ≤ 180

instance (d : Display) : Decidable d.Upwards := inferInstanceAs (Decidable (_ ≤ _))

/-- The angle a degree further on. -/
def degreeOn (up : Prop) [Decidable up] (angle : Nat) : Nat := if up then (angle + 1) % 360 else (angle + 359) % 360

/-- The cycles until the target is reached. -/
def owed (d : Display) : Nat := 2000 * d.distance - d.turned

/-- **A display turns to its target by the shorter way and stops there**, whatever it is asked, if it is not given
another target. -/
structure TurnsShorterWay (d : Display) : Prop where
  target {calls : List DisplayCall} (quiet : ∀ call ∈ calls, ¬ call.Rotates) : (d.performAll calls).target = d.target
  /-- The target is reached with the last cycle that is owed, and not left again. -/
  reached_iff {calls : List DisplayCall} (quiet : ∀ call ∈ calls, ¬ call.Rotates) :
    (d.performAll calls).rotation = d.target ↔ 2000 * d.distance - d.turned ≤ calls.count .cycle
  /-- Until then the angle changes by single degrees, all in the direction in which the way is shorter. -/
  degree {calls : List DisplayCall} {call : DisplayCall} (quiet : ∀ c ∈ calls ++ [call], ¬ c.Rotates) :
    let before := d.performAll calls
    let behind := before.perform call
    behind.rotation = before.rotation ∨
      behind.rotation = degreeOn d.Upwards before.rotation ∧ behind.distance + 1 = before.distance

section
variable {d : Display}

theorem distance_eq_zero_iff (h : d.InRange) : d.distance = 0 ↔ d.rotation = d.target := by
  have rotation := h.rotation
  have target := h.target
  unfold distance degreesUp
  omega

theorem owed_eq_zero_iff (h : d.InRange) : d.owed = 0 ↔ d.rotation = d.target := by
  have turned : d.turned < 2000 := h.turned
  rw [← distance_eq_zero_iff h, owed]
  omega

/-- A degree on the shorter way brings the target nearer by one, and the way stays the shorter one until it ends. -/
theorem nextDegree_nearer (h : d.InRange) (away : d.rotation ≠ d.target) {e : Display}
    (rotation : e.rotation = nextDegree d.rotation d.target) (target : e.target = d.target) :
    e.rotation = degreeOn d.Upwards d.rotation ∧ e.distance + 1 = d.distance ∧
      (e.rotation = e.target ∨ (e.Upwards ↔ d.Upwards)) := by
  have inRange := h.rotation
  have inRangeTarget := h.target
  refine ⟨rotation, ?_⟩
  unfold nextDegree at rotation
  simp only [distance, Upwards, degreesUp, target]
  split at rotation <;> omega

/-! ## A call -/

theorem inRange_perform (h : d.InRange) (call : DisplayCall) : (d.perform call).InRange := by
  cases call with
  | cycle => exact h.cycle
  | command regs => exact h.interrupt regs

/-- A command that sets no target changes nothing that turning depends on. -/
theorem turning_command {regs : Registers} (quiet : regs.a ≠ 2) :
    (d.interrupt regs).1.rotation = d.rotation ∧ (d.interrupt regs).1.target = d.target ∧
      (d.interrupt regs).1.turned = d.turned := by
  unfold interrupt
  split
  · exact ⟨rfl, rfl, rfl⟩
  · split <;> exact ⟨rfl, rfl, rfl⟩
  · next rotates => exact absurd rotates quiet
  · exact ⟨rfl, rfl, rfl⟩

theorem target_cycle (d : Display) : d.cycle.target = d.target := by
  unfold cycle
  split
  · rfl
  · split <;> rfl

/-- A cycle finds the display at its target, or counts, or completes a degree. -/
theorem cycle_cases (d : Display) :
    d.rotation = d.target ∧ d.cycle.rotation = d.rotation ∨
      d.rotation ≠ d.target ∧ d.cycle.rotation = d.rotation ∧ d.cycle.turned = d.turned + 1 ∨
        d.rotation ≠ d.target ∧ d.cycle.rotation = nextDegree d.rotation d.target ∧ d.cycle.turned = 0 ∧
          2000 ≤ d.turned + 1 := by
  unfold cycle
  split
  · next there => exact .inl ⟨there, rfl⟩
  · next away =>
    split
    · exact .inr (.inl ⟨away, rfl, rfl⟩)
    · next full => exact .inr (.inr ⟨away, rfl, rfl, Nat.le_of_not_lt full⟩)

theorem owed_cycle (h : d.InRange) : d.cycle.owed = d.owed - 1 := by
  have turned : d.turned < 2000 := h.turned
  have target := target_cycle d
  rcases cycle_cases d with ⟨there, rotation⟩ | ⟨away, rotation, counted⟩ | ⟨away, rotation, counted, full⟩
  · rw [(owed_eq_zero_iff h).mpr there, owed_eq_zero_iff h.cycle, rotation, target]
    exact there
  · simp only [owed, distance, rotation, target, counted]
    exact (Nat.sub_sub ..).symm
  · obtain ⟨-, nearer, -⟩ := nextDegree_nearer h away rotation target
    unfold owed
    omega

theorem target_perform {call : DisplayCall} (quiet : ¬ call.Rotates) : (d.perform call).target = d.target := by
  cases call with
  | cycle => exact target_cycle d
  | command regs => exact (turning_command quiet).2.1

theorem owed_perform (h : d.InRange) {call : DisplayCall} (quiet : ¬ call.Rotates) :
    (d.perform call).owed = d.owed - [call].count .cycle := by
  cases call with
  | cycle => exact owed_cycle h
  | command regs =>
    obtain ⟨rotation, target, turned⟩ := turning_command (d := d) quiet
    simp only [perform, owed, distance, rotation, target, turned]
    rfl

/-- The angle behind a call is the same, or the next one on the shorter way. -/
theorem rotation_perform {call : DisplayCall} (quiet : ¬ call.Rotates) :
    (d.perform call).rotation = d.rotation ∨
      d.rotation ≠ d.target ∧ (d.perform call).rotation = nextDegree d.rotation d.target := by
  cases call with
  | cycle =>
    rcases cycle_cases d with ⟨-, same⟩ | ⟨-, same, -⟩ | ⟨away, next, -⟩
    · exact .inl same
    · exact .inl same
    · exact .inr ⟨away, next⟩
  | command regs => exact .inl (turning_command quiet).1

/-! ## Many calls -/

/-- **What is kept while a display turns**: after `n` cycles it owes that many less, and as long as it is away from its
target, the same way is the shorter one. -/
structure Turned (d : Display) (n : Nat) (e : Display) : Prop where
  inRange : e.InRange
  target : e.target = d.target
  owed : e.owed = d.owed - n
  upwards : e.rotation = e.target ∨ (e.Upwards ↔ d.Upwards)

variable {n : Nat} {e : Display}

theorem Turned.perform (h : d.Turned n e) {call : DisplayCall} (quiet : ¬ call.Rotates) :
    d.Turned (n + [call].count .cycle) (e.perform call) where
  inRange := inRange_perform h.inRange call
  target := (target_perform quiet).trans h.target
  owed := by rw [owed_perform h.inRange quiet, h.owed, Nat.sub_sub]
  upwards := by
    have target := target_perform (d := e) quiet
    rcases rotation_perform (d := e) quiet with same | ⟨away, next⟩
    · simpa only [Upwards, same, target] using h.upwards
    · obtain ⟨-, -, there | onward⟩ := nextDegree_nearer h.inRange away next target
      · exact .inl there
      · exact .inr (onward.trans (h.upwards.resolve_left away))

theorem Turned.performAll (h : d.Turned n e) {calls : List DisplayCall} (quiet : ∀ call ∈ calls, ¬ call.Rotates) :
    d.Turned (n + calls.count .cycle) (e.performAll calls) := by
  induction calls generalizing n e with
  | nil => exact h
  | cons call calls ih =>
    obtain ⟨first, rest⟩ := List.forall_mem_cons.mp quiet
    have counted : n + (call :: calls).count .cycle = n + [call].count .cycle + calls.count .cycle := by
      rw [← List.singleton_append, List.count_append, Nat.add_assoc]
    rw [counted]
    exact ih (h.perform first) rest

theorem turned_performAll (h : d.InRange) {calls : List DisplayCall} (quiet : ∀ call ∈ calls, ¬ call.Rotates) :
    d.Turned (calls.count .cycle) (d.performAll calls) := by
  have start : d.Turned 0 d := ⟨h, rfl, rfl, .inr Iff.rfl⟩
  simpa only [Nat.zero_add] using start.performAll quiet

theorem turnsShorterWay (h : d.InRange) : d.TurnsShorterWay where
  target quiet := (turned_performAll h quiet).target
  reached_iff {calls} quiet := by
    have turned := turned_performAll h quiet
    rw [← turned.target, ← owed_eq_zero_iff turned.inRange, turned.owed, Nat.sub_eq_zero_iff_le]
    rfl
  degree {calls call} quiet := by
    obtain ⟨before, last⟩ := List.forall_mem_append.mp quiet
    have still : ¬ call.Rotates := last call (List.mem_singleton_self _)
    have turned := turned_performAll h before
    intro before behind
    rcases rotation_perform (d := before) still with same | ⟨away, next⟩
    · exact .inl same
    · obtain ⟨degree, nearer, -⟩ := nextDegree_nearer turned.inRange away next (target_perform still)
      have way : before.Upwards ↔ d.Upwards := turned.upwards.resolve_left away
      refine .inr ⟨degree.trans ?_, nearer⟩
      exact if_congr way rfl rfl

theorem inRange_performAll (h : d.InRange) (calls : List DisplayCall) : (d.performAll calls).InRange := by
  induction calls generalizing d with
  | nil => exact h
  | cons call calls ih => exact ih (inRange_perform h call)

end

/-- **A display turns the shorter way.** Let a new display be given any calls. Its angles are below 360, no more than
128 vertices are mapped, and a mapping of more is refused and changes none that is there. From there on, until it is
given another target, it reaches its target after 2000 cycles for each degree of the shorter way, less those that it has
turned already, by single degrees in one direction, which is upwards if both ways are equally long, and stays there. -/
theorem turns_shorter_way (calls : List DisplayCall) :
    let d := ({} : Display).performAll calls
    d.rotation < 360 ∧ d.target < 360 ∧ d.count ≤ 128 ∧ d.turned < 2000 ∧
      (∀ regs : Registers, regs.a = 1 → 128 < regs.y.toNat → (d.interrupt regs).1 = { d with broken := true }) ∧
      d.TurnsShorterWay := by
  intro d
  have inRange : d.InRange := inRange_performAll (by constructor <;> decide) calls
  refine ⟨inRange.rotation, inRange.target, inRange.count, inRange.turned, ?_, turnsShorterWay inRange⟩
  intro regs maps many
  have refused : maxVertices < regs.y.toNat := many
  simp only [interrupt, maps, if_pos refused]

/-- A display that has turned for 500 cycles towards 90 degrees is given the target on the other side, to which both
ways are equally long. It is polled, and is there after 359500 cycles and not before. -/
theorem turns_shorter_way_of_replaced :
    let d := ({} : Display).performAll
      (.command { a := 2, x := 90 } :: List.replicate 500 .cycle ++ [.command { a := 2, x := 180 }])
    ∀ n, (d.performAll (.command {} :: List.replicate n .cycle)).rotation = 180 ↔ 359500 ≤ n := by
  intro d n
  have turning : d = { target := 180, turned := 500 } := by decide +kernel
  obtain ⟨-, -, -, -, -, turns⟩ := turns_shorter_way
    (.command { a := 2, x := 90 } :: List.replicate 500 .cycle ++ [.command { a := 2, x := 180 }])
  have quiet : ∀ call ∈ DisplayCall.command {} :: List.replicate n .cycle, ¬ call.Rotates := by
    refine List.forall_mem_cons.mpr ⟨by decide, fun call cycle => ?_⟩
    rw [List.eq_of_mem_replicate cycle]
    exact id
  have reached : (d.performAll _).rotation = d.target ↔ 2000 * d.distance - d.turned ≤ _ := turns.reached_iff quiet
  have owed : 2000 * d.distance - d.turned = 359500 := by rw [turning]; rfl
  rw [owed, List.count_cons_of_ne (by decide), List.count_replicate_self] at reached
  rwa [turning] at reached ⊢

end Display

end Dcpu16
