import Dcpu16.Proofs.Assembly.Names

/-!
# Texts in upper case

Only letters change in upper case, and what separates the parts of a text is not a letter. So a text in upper case is
taken apart into the same parts in upper case, by every function that takes it apart (`splitLine_upperAscii`,
`splitItems_upperAscii`), and names are the same to all that compares them in upper case (`upper_upperAscii`).
-/

namespace Dcpu16

/-! ## Characters -/

theorem toUpper_of_not_ascii {c : Char} (h : ¬ c.toNat < 0x80) : c.toUpper = c := by
  unfold Char.toUpper
  split
  · next letter => exact absurd (Nat.lt_of_le_of_lt (UInt32.le_iff_toNat_le.mp letter.2) (by decide)) h
  · rfl

/-- What is the same for the ASCII characters in either case is the same for every character. -/
theorem eq_toUpper {α : Type} {f : Char → α} (h : ∀ n < 128, f (Char.ofNat n).toUpper = f (Char.ofNat n)) (c : Char) :
    f c.toUpper = f c := by
  by_cases ascii : c.toNat < 0x80
  · exact forall_ascii (p := fun c => f c.toUpper = f c) h ascii
  · rw [toUpper_of_not_ascii ascii]

/-- The characters that separate the parts of a text, or mark what they are. -/
def separators : Text := "\n:;,\"\\[]+-0".toList

/-- What is asked about a character where a text is read. -/
structure Traits where
  upper : Text
  toUpper : Char
  isBlank : Bool
  isNameStart : Bool
  isDigit : Bool
  separator : Option Char
  deriving DecidableEq

/-- The traits of a character. -/
def traits (c : Char) : Traits where
  upper := upperChar c
  toUpper := c.toUpper
  isBlank := isBlank c
  isNameStart := isNameStart c
  isDigit := c.isDigit
  separator := if c ∈ separators then some c else none

/-- A character has the same traits in upper case. -/
theorem traits_toUpper (c : Char) : traits c.toUpper = traits c := eq_toUpper (by decide +kernel) c

theorem toUpper_toUpper (c : Char) : c.toUpper.toUpper = c.toUpper := congrArg Traits.toUpper (traits_toUpper c)

theorem upperChar_toUpper (c : Char) : upperChar c.toUpper = upperChar c := congrArg Traits.upper (traits_toUpper c)

theorem isBlank_toUpper (c : Char) : isBlank c.toUpper = isBlank c := congrArg Traits.isBlank (traits_toUpper c)

theorem isNameStart_toUpper (c : Char) : isNameStart c.toUpper = isNameStart c :=
  congrArg Traits.isNameStart (traits_toUpper c)

theorem isDigit_toUpper (c : Char) : c.toUpper.isDigit = c.isDigit := congrArg Traits.isDigit (traits_toUpper c)

theorem toUpper_eq_iff {d : Char} (hd : d ∈ separators) (c : Char) : c.toUpper = d ↔ c = d := by
  have own (e : Char) : (traits e).separator = some d ↔ e = d := by
    show (if e ∈ separators then some e else none) = some d ↔ e = d
    split
    · exact Option.some_inj
    · next other => exact iff_of_false nofun fun same => other (same ▸ hd)
  rw [← own, ← own c, traits_toUpper]

/-! ## Texts -/

variable (t : Text)

@[simp] theorem upperAscii_nil : upperAscii [] = [] := rfl

@[simp] theorem upperAscii_cons (c : Char) : upperAscii (c :: t) = c.toUpper :: upperAscii t := rfl

@[simp] theorem upperAscii_reverse : upperAscii t.reverse = (upperAscii t).reverse := List.map_reverse

theorem upperAscii_eq_cons_iff {d : Char} (hd : d ∈ separators) {u : Text} :
    upperAscii t = d :: u ↔ ∃ rest, t = d :: rest ∧ upperAscii rest = u := by
  cases t with
  | nil => simp
  | cons c cs =>
    rw [upperAscii_cons, List.cons_eq_cons, toUpper_eq_iff hd]
    constructor
    · rintro ⟨rfl, rfl⟩
      exact ⟨cs, rfl, rfl⟩
    · rintro ⟨rest, whole, rfl⟩
      obtain ⟨rfl, rfl⟩ := List.cons.inj whole
      exact ⟨rfl, rfl⟩

/-- A text that does not start with a separator does not in upper case. -/
theorem upperAscii_ne_cons {d : Char} (hd : d ∈ separators) (h : ∀ rest, t ≠ d :: rest) (u : Text) :
    upperAscii t ≠ d :: u := by
  intro whole
  obtain ⟨rest, own, -⟩ := (upperAscii_eq_cons_iff t hd).mp whole
  exact h rest own

theorem head?_upperAscii {d : Char} (hd : d ∈ separators) : (upperAscii t).head? = some d ↔ t.head? = some d := by
  cases t <;> simp [toUpper_eq_iff hd]

theorem getLast?_upperAscii {d : Char} (hd : d ∈ separators) :
    (upperAscii t).getLast? = some d ↔ t.getLast? = some d := by
  rw [upperAscii, List.getLast?_map]
  cases t.getLast? <;> simp [toUpper_eq_iff hd]

theorem upperAscii_upperAscii : upperAscii (upperAscii t) = upperAscii t := by
  rw [upperAscii, upperAscii, List.map_map]
  exact List.map_congr_left fun c _ => toUpper_toUpper c

theorem upper_upperAscii : upper (upperAscii t) = upper t := by
  simp [upper, upperAscii, List.flatMap_map, upperChar_toUpper]

theorem all_isBlank_upperAscii : (upperAscii t).all isBlank = t.all isBlank := by
  simp [upperAscii, List.all_map, Function.comp_def, isBlank_toUpper]

theorem trimLeft_upperAscii : trimLeft (upperAscii t) = upperAscii (trimLeft t) := by
  simp [trimLeft, upperAscii, List.dropWhile_map, Function.comp_def, isBlank_toUpper]

theorem trim_upperAscii : trim (upperAscii t) = upperAscii (trim t) := by
  rw [trim, trim, trimLeft_upperAscii, ← upperAscii_reverse, trimLeft_upperAscii, upperAscii_reverse]

theorem breakAtBlank_upperAscii :
    breakAtBlank (upperAscii t) = (upperAscii (breakAtBlank t).1, upperAscii (breakAtBlank t).2) := by
  simp [breakAtBlank, upperAscii, List.takeWhile_map, List.dropWhile_map, Function.comp_def, isBlank_toUpper]

theorem isName_upperAscii : isName (upperAscii t) = isName t := by
  cases t <;> simp [isName, upperAscii, isNameStart_toUpper, isDigit_toUpper, List.all_map, Function.comp_def]

theorem splitOn_upperAscii {sep : Char} (hs : sep ∈ separators) :
    splitOn sep (upperAscii t) = (splitOn sep t).map upperAscii := by
  induction t with
  | nil => rfl
  | cons c cs ih =>
    rw [upperAscii_cons, splitOn_cons, splitOn_cons, ih]
    simp only [toUpper_eq_iff hs]
    split
    · rfl
    · cases splitOn sep cs <;> rfl

/-! ## Lines -/

theorem next_toUpper (q : Quoting) (c : Char) : q.next c.toUpper = q.next c := by
  cases q <;> simp only [Quoting.next, toUpper_eq_iff (by decide : '"' ∈ separators),
    toUpper_eq_iff (by decide : '\\' ∈ separators)]

theorem stripComment_go_upperAscii (q : Quoting) (kept : Text) :
    stripComment.go q (upperAscii kept) (upperAscii t) = upperAscii (stripComment.go q kept t) := by
  induction t generalizing q kept with
  | nil => simp [stripComment.go]
  | cons c cs ih =>
    simp only [upperAscii_cons, stripComment.go, toUpper_eq_iff (by decide : ';' ∈ separators), next_toUpper]
    split
    · simp
    · exact ih (q.next c) (c :: kept)

theorem stripComment_upperAscii : stripComment (upperAscii t) = upperAscii (stripComment t) :=
  stripComment_go_upperAscii t .outside []

theorem splitItems_go_upperAscii (q : Quoting) (item : Text) (done : List Text) :
    splitItems.go q (upperAscii item) (done.map upperAscii) (upperAscii t) =
      (splitItems.go q item done t).map upperAscii := by
  have trimmed (u : Text) : trim (upperAscii u).reverse = upperAscii (trim u.reverse) := by
    rw [← upperAscii_reverse, trim_upperAscii]
  induction t generalizing q item done with
  | nil => simp [splitItems.go, trimmed]
  | cons c cs ih =>
    simp only [upperAscii_cons, splitItems.go, toUpper_eq_iff (by decide : ',' ∈ separators), next_toUpper, trimmed]
    split
    · exact ih q [] (trim item.reverse :: done)
    · exact ih (q.next c) (c :: item) done

theorem splitItems_upperAscii : splitItems (upperAscii t) = (splitItems t).map upperAscii := by
  rw [splitItems, splitItems, all_isBlank_upperAscii]
  split
  · rfl
  · exact splitItems_go_upperAscii t .outside [] []

theorem takeLabel?_upperAscii :
    takeLabel? (upperAscii t) = (takeLabel? t).map fun label => (upperAscii label.1, upperAscii label.2) := by
  have colon : ':' ∈ separators := by decide
  by_cases starts : ∃ rest, t = ':' :: rest
  · obtain ⟨rest, rfl⟩ := starts
    show some ((breakAtBlank (upperAscii rest)).1, trimLeft (breakAtBlank (upperAscii rest)).2) = _
    rw [breakAtBlank_upperAscii, trimLeft_upperAscii]
    rfl
  · have other (rest : Text) : t ≠ ':' :: rest := fun e => starts ⟨rest, e⟩
    rw [takeLabel?_of_ne other, takeLabel?_of_ne (upperAscii_ne_cons t colon other), breakAtBlank_upperAscii]
    simp only [getLast?_upperAscii _ colon, trimLeft_upperAscii]
    split
    · simp [upperAscii]
    · rfl

theorem splitLabels_upperAscii :
    splitLabels (upperAscii t) = ((splitLabels t).1.map upperAscii, upperAscii (splitLabels t).2) := by
  fun_induction splitLabels t with
  | case1 t unlabelled =>
    rw [splitLabels_of_takeLabel? (by rw [takeLabel?_upperAscii, unlabelled, Option.map_none])]
    rfl
  | case2 t name rest found names statement behind ih =>
    rw [splitLabels_of_takeLabel?_some (by rw [takeLabel?_upperAscii, found, Option.map_some]), ih, behind]
    rfl

theorem splitLine_upperAscii :
    splitLine (upperAscii t) = ((splitLine t).1.map upperAscii, upperAscii (splitLine t).2) := by
  rw [splitLine, stripComment_upperAscii, trim_upperAscii, splitLabels_upperAscii]
  rfl

end Dcpu16
