import Dcpu16.Proofs.Assembly.SignedNumerals
import Dcpu16.Proofs.Assembly.Terms
import Dcpu16.Proofs.Text.Quoting
import Dcpu16.Proofs.Text.UpperCase

/-!
# Letter case

A program text without strings means the same in upper case. Each function that reads a part of a text gives for the
text in upper case what it gives for the text, with the names in it in upper case (`Value.parse_upperAscii`,
`Argument.parse_upperAscii`, `Statement.parse_upperAscii`). In a layout names are in upper case anyway, so the layout is
the same (`Layout.addLine_upperAscii`), and so are the words or the kind and the place of the error
(`assemble_upperAscii`, `assemble_ignores_case`).
-/

namespace Dcpu16

/-! ## Results in upper case -/

/-- A malformation with the texts that it names in upper case. -/
def Malformation.upperCase : Malformation → Malformation
  | labelName name => labelName (upperAscii name)
  | pushAsSource operand => pushAsSource (upperAscii operand)
  | popAsDestination operand => popAsDestination (upperAscii operand)
  | notAValue found => notAValue (upperAscii found)
  | memoryOperand inner => memoryOperand (upperAscii inner)
  | m => m

/-- A problem with the texts that it names in upper case. Undefined labels are named in upper case anyway. -/
def Problem.upperCase : Problem → Problem
  | malformed m => malformed m.upperCase
  | unknownMnemonic name => unknownMnemonic (upperAscii name)
  | duplicateLabel name => duplicateLabel (upperAscii name)
  | p => p

section
variable {α β γ δ : Type}

/-- A result with its value changed by `f`, or with its problem in upper case. -/
def recased (f : α → β) : Except Problem α → Except Problem β
  | .ok a => .ok (f a)
  | .error p => .error p.upperCase

variable {f : α → β} {g : γ → δ}

theorem recased_bind {j : α → Except Problem γ} {k : β → Except Problem δ} (h : ∀ a, k (f a) = recased g (j a))
    (x : Except Problem α) : recased f x >>= k = recased g (x >>= j) := by
  cases x with
  | ok a => exact h a
  | error p => rfl

theorem recased_ite {p : Prop} [Decidable p] (x y : Except Problem α) :
    recased f (if p then x else y) = if p then recased f x else recased f y := apply_ite ..

theorem mapM_recased {j : γ → Except Problem α} {k : δ → Except Problem β} {xs : List γ}
    (h : ∀ x ∈ xs, k (g x) = recased f (j x)) : (xs.map g).mapM k = recased (List.map f) (xs.mapM j) := by
  induction xs with
  | nil => rfl
  | cons x xs ih =>
    rw [List.map_cons, List.mapM_cons, List.mapM_cons, h x (List.mem_cons_self ..),
      ih fun y hy => h y (List.mem_cons_of_mem _ hy)]
    refine recased_bind (fun a => ?_) _
    refine recased_bind (fun as => ?_) _
    rfl

theorem foldlM_recased {j : α → γ → Except Problem α} {k : β → δ → Except Problem β}
    (h : ∀ a c, k (f a) (g c) = recased f (j a c)) (xs : List γ) (a : α) :
    (xs.map g).foldlM k (f a) = recased f (xs.foldlM j a) := by
  induction xs generalizing a with
  | nil => rfl
  | cons x xs ih =>
    rw [List.map_cons, List.foldlM_cons, List.foldlM_cons, h]
    exact recased_bind ih _

end

/-! ## Values -/

namespace Numeral

/-- The radices of which a character is the mark. -/
def radices (c : Char) : List Nat := (marks.filter (·.1 == c)).map (·.2)

/-- A character has the same meaning in a numeral in upper case. -/
theorem numeral_toUpper (c : Char) : (digitValue c.toUpper, radices c.toUpper) = (digitValue c, radices c) :=
  eq_toUpper (f := fun c => (digitValue c, radices c)) (by decide +kernel) c

section
variable {radix : Nat} (h : radix ≤ 16) (t : Text)
include h

theorem digits?_upperAscii : digits? radix (upperAscii t) = digits? radix t := by
  have digit (c : Char) : digit? radix c.toUpper = digit? radix c := by
    rw [digit?_eq h, digit?_eq h, (Prod.mk.inj (numeral_toUpper c)).1]
  simp only [digits?, upperAscii, List.isEmpty_map, List.foldlM_map, digit]

theorem signed?_upperAscii : signed? radix (upperAscii t) = signed? radix t := by
  have digits := digits?_upperAscii h
  by_cases minus : ∃ ds, t = '-' :: ds
  · obtain ⟨ds, rfl⟩ := minus
    rw [upperAscii_cons, (by decide : '-'.toUpper = '-')]
    simp only [signed?, digits]
  by_cases plus : ∃ ds, t = '+' :: ds
  · obtain ⟨ds, rfl⟩ := plus
    rw [upperAscii_cons, (by decide : '+'.toUpper = '+')]
    simp only [signed?, digits]
  have noMinus (ds : Text) : t ≠ '-' :: ds := fun e => minus ⟨ds, e⟩
  have noPlus (ds : Text) : t ≠ '+' :: ds := fun e => plus ⟨ds, e⟩
  have upperUnsigned (ds : Text) : upperAscii t ≠ '-' :: ds ∧ upperAscii t ≠ '+' :: ds :=
    ⟨upperAscii_ne_cons t (by decide) noMinus ds, upperAscii_ne_cons t (by decide) noPlus ds⟩
  rw [signed?_of_unsigned fun ds => ⟨noMinus ds, noPlus ds⟩, signed?_of_unsigned upperUnsigned, digits]

end

theorem mem_marks_toUpper (mark : Char) (radix : Nat) : (mark.toUpper, radix) ∈ marks ↔ (mark, radix) ∈ marks := by
  have of_mem (c : Char) : (c, radix) ∈ marks ↔ radix ∈ radices c := by simp [radices]
  rw [of_mem, of_mem, (Prod.mk.inj (numeral_toUpper mark)).2]

theorem magnitude?_upperAscii (t : Text) : magnitude? (upperAscii t) = magnitude? t := by
  by_cases marked : ∃ mark radix ds, (mark, radix) ∈ marks ∧ t = '0' :: mark :: ds
  · obtain ⟨mark, radix, ds, hm, rfl⟩ := marked
    have hm' := (mem_marks_toUpper mark radix).mpr hm
    rw [magnitude?_of_mark hm, upperAscii_cons, upperAscii_cons, (by decide : '0'.toUpper = '0'),
      magnitude?_of_mark hm', signed?_upperAscii (radix_le_of_mark hm)]
  · have unmarked (mark : Char) (radix : Nat) (ds : Text) (hm : (mark, radix) ∈ marks) : t ≠ '0' :: mark :: ds :=
      fun e => marked ⟨mark, radix, ds, hm, e⟩
    have upperUnmarked (mark : Char) (radix : Nat) (ds : Text) (hm : (mark, radix) ∈ marks) :
        upperAscii t ≠ '0' :: mark :: ds := by
      intro e
      obtain ⟨_ | ⟨c, cs⟩, rfl, inner⟩ := (upperAscii_eq_cons_iff t (by decide)).mp e
      · cases inner
      · obtain ⟨rfl, -⟩ := List.cons.inj inner
        exact unmarked c radix cs ((mem_marks_toUpper c radix).mp hm) rfl
    have first : (upperAscii t).head?.any (·.isDigit) = t.head?.any (·.isDigit) := by
      cases t <;> simp [isDigit_toUpper]
    rw [magnitude?_of_unmarked unmarked, magnitude?_of_unmarked upperUnmarked, first, signed?_upperAscii (by decide)]

theorem number?_upperAscii (t : Text) : number? (upperAscii t) = number? t := by
  by_cases minus : ∃ rest, t = '-' :: rest
  · obtain ⟨rest, rfl⟩ := minus
    rw [upperAscii_cons, (by decide : '-'.toUpper = '-')]
    simp only [number?, trimLeft_upperAscii, magnitude?_upperAscii]
  · have other : t.head? ≠ some '-' := fun e => minus (List.head?_eq_some_iff.mp e)
    have upperOther : (upperAscii t).head? ≠ some '-' := fun e => other ((head?_upperAscii t (by decide)).mp e)
    rw [number?_of_head other, number?_of_head upperOther, magnitude?_upperAscii]

end Numeral

namespace Value

/-- A value with the label in upper case. -/
def upperCase : Value → Value
  | number w => number w
  | label name => label (upperAscii name)

theorem parse_upperAscii (t : Text) : parse (upperAscii t) = recased upperCase (parse t) := by
  simp only [parse, trim_upperAscii, Numeral.number?_upperAscii, isName_upperAscii]
  rcases Numeral.number? (trim t) with _ | _ | n
  · rfl
  · simp only [recased_ite]; rfl
  · simp only [recased_ite]; rfl

end Value

namespace Argument

/-- An argument with the label in upper case. -/
def upperCase (a : Argument) : Argument := { a with next := a.next.map Value.upperCase }

/-! ## Sums in brackets -/

/-- A term in upper case. -/
def upperTerm (term : Bool × Text) : Bool × Text := (term.1, upperAscii term.2)

theorem terms_go_upperAscii (negative : Bool) (term : Text) (done : List (Bool × Text)) (t : Text) :
    terms.go negative (upperAscii term) (done.map upperTerm) (upperAscii t) =
      (terms.go negative term done t).map upperTerm := by
  have trimmed (u : Text) : trim (upperAscii u).reverse = upperAscii (trim u.reverse) := by
    rw [← upperAscii_reverse, trim_upperAscii]
  induction t generalizing negative term done with
  | nil =>
    by_cases minus : ∃ rest, done = [] ∧ trim term.reverse = '-' :: rest
    · obtain ⟨rest, rfl, own⟩ := minus
      have upperOwn : trim (upperAscii term).reverse = '-' :: upperAscii rest := by rw [trimmed, own]; rfl
      simp [terms.go, own, upperOwn, upperTerm, trim_upperAscii]
    · have other : done = [] → ∀ rest, trim term.reverse ≠ '-' :: rest := fun e rest own => minus ⟨rest, e, own⟩
      have upperOther : done.map upperTerm = [] → ∀ rest, trim (upperAscii term).reverse ≠ '-' :: rest := by
        rw [trimmed]
        intro e rest own
        obtain ⟨_, first, -⟩ := (upperAscii_eq_cons_iff _ (by decide)).mp own
        exact other (List.map_eq_nil_iff.mp e) _ first
      rw [upperAscii_nil, terms_go_nil _ _ _ other, terms_go_nil _ _ _ upperOther, trimmed]
      simp [upperTerm]
  | cons c cs ih =>
    simp only [upperAscii_cons, terms.go, toUpper_eq_iff (by decide : '+' ∈ separators),
      toUpper_eq_iff (by decide : '-' ∈ separators), all_isBlank_upperAscii, trimmed]
    split
    · exact ih _ [] ((negative, trim term.reverse) :: done)
    · exact ih negative (c :: term) done

theorem terms_upperAscii (t : Text) : terms (upperAscii t) = (terms t).map upperTerm :=
  terms_go_upperAscii false [] [] t

theorem registerName_upperAscii (t : Text) : Register.ofName? (upperAscii t) = Register.ofName? t := by
  match t with
  | [] => rfl
  | [c] => simp only [upperAscii_cons, upperAscii_nil, Register.ofName?, toUpper_toUpper]
  | _ :: _ :: _ => rfl

theorem Base.ofName?_upperAscii (t : Text) : Base.ofName? (upperAscii t) = Base.ofName? t := by
  rw [ofName?, ofName?, upper_upperAscii, registerName_upperAscii]

/-- What has been read of a sum, with the label in upper case. -/
def AddressSum.upperCase (s : AddressSum) : AddressSum := { s with value := s.value.map Value.upperCase }

theorem AddressSum.add_upperAscii (inner : Text) (s : AddressSum) (negative : Bool) (term : Text) :
    add (upperAscii inner) s.upperCase negative (upperAscii term) = recased upperCase (add inner s negative term) := by
  have given : s.upperCase.value.isSome = s.value.isSome := Option.isSome_map
  have base : s.upperCase.base = s.base := rfl
  simp only [add, Base.ofName?_upperAscii, Value.parse_upperAscii, given, base]
  cases Base.ofName? term with
  | some b =>
    simp only [recased_ite]
    rfl
  | none =>
    simp only [recased_ite]
    congr 1
    cases Value.parse term with
    | error p => rfl
    | ok v =>
      cases v with
      | number n => rfl
      | label name =>
        simp only [recased_ite]
        rfl

theorem AddressSum.argument?_upperCase (s : AddressSum) : s.upperCase.argument? = s.argument?.map Argument.upperCase := by
  obtain ⟨_ | _ | _, _ | _⟩ := s <;> rfl

theorem parseMemory_upperAscii (pos : Position) (inner : Text) :
    parseMemory pos (upperAscii inner) = recased upperCase (parseMemory pos inner) := by
  have packed (t : Text) : upper ((upperAscii t).filter (!isBlank ·)) = upper (t.filter (!isBlank ·)) := by
    rw [upperAscii, List.filter_map]
    simp only [Function.comp_def, isBlank_toUpper]
    exact upper_upperAscii _
  have sum (t : Text) : (terms (upperAscii t)).foldlM (fun s term => AddressSum.add (upperAscii t) s term.1 term.2) {} =
      recased AddressSum.upperCase ((terms t).foldlM (fun s term => AddressSum.add t s term.1 term.2) {}) := by
    rw [terms_upperAscii]
    exact foldlM_recased (f := AddressSum.upperCase) (g := upperTerm)
      (j := fun s term => AddressSum.add t s term.1 term.2)
      (k := fun s term => AddressSum.add (upperAscii t) s term.1 term.2)
      (fun s term => AddressSum.add_upperAscii t s term.1 term.2) (terms t) {}
  simp only [parseMemory, trim_upperAscii, packed, recased_ite, sum]
  congr 3
  refine recased_bind (fun s => ?_) _
  rw [AddressSum.argument?_upperCase]
  cases s.argument? <;> rfl

/-! ## Arguments -/

theorem bracketed?_upperAscii (t : Text) : bracketed? (upperAscii t) = (bracketed? t).map upperAscii := by
  by_cases opened : ∃ rest, t = '[' :: rest
  · obtain ⟨rest, rfl⟩ := opened
    rw [upperAscii_cons, (by decide : '['.toUpper = '[')]
    simp only [bracketed?, getLast?_upperAscii _ (by decide : ']' ∈ separators)]
    split
    · simp [upperAscii]
    · rfl
  · have none (u : Text) (hu : ∀ rest, u ≠ '[' :: rest) : bracketed? u = none := by
      unfold bracketed?
      split
      · exact absurd rfl (hu _)
      · rfl
    have other (rest : Text) : t ≠ '[' :: rest := fun e => opened ⟨rest, e⟩
    rw [none t other, none _ (upperAscii_ne_cons t (by decide) other)]
    rfl

theorem named_upperAscii (pos : Position) (t : Text) :
    named pos (upperAscii t) = recased (Option.map upperCase) (named pos t) := by
  simp only [named, upperAscii_upperAscii, recased_ite, registerName_upperAscii]
  cases Register.ofName? t <;> rfl

theorem picked?_upperAscii (t : Text) : picked? (upperAscii t) = (picked? t).map upperAscii := by
  have behind : (upperAscii t).drop 4 = upperAscii (t.drop 4) := List.map_drop.symm
  have front : upperAscii ((upperAscii t).take 4) = upperAscii (t.take 4) := by
    rw [upperAscii, upperAscii, ← List.map_take]
    exact upperAscii_upperAscii _
  have blank (u : Text) : (upperAscii u).head?.any isBlank = u.head?.any isBlank := by
    cases u <;> simp [isBlank_toUpper]
  simp only [picked?, behind, front, blank]
  split <;> rfl

theorem ofValue_upperCase (pos : Position) (v : Value) : ofValue pos v.upperCase = (ofValue pos v).upperCase := by
  cases pos with
  | destination => rfl
  | source =>
    cases v with
    | label name => rfl
    | number n =>
      simp only [ofValue, Value.upperCase]
      cases Operand.shortLiteral? n <;> rfl

theorem parse_upperAscii (pos : Position) (t : Text) :
    parse pos (upperAscii t) = recased upperCase (parse pos t) := by
  simp only [parse, trim_upperAscii, bracketed?_upperAscii]
  cases bracketed? (trim t) with
  | some inner => exact parseMemory_upperAscii pos inner
  | none =>
    simp only [Option.map_none, named_upperAscii]
    refine recased_bind (fun found => ?_) _
    cases found with
    | some a => rfl
    | none =>
      simp only [Option.map_none, picked?_upperAscii]
      cases picked? (trim t) with
      | some rest =>
        simp only [Option.map_some, Value.parse_upperAscii]
        refine recased_bind (fun v => ?_) _
        rfl
      | none =>
        simp only [Option.map_none, Value.parse_upperAscii]
        refine recased_bind (fun v => ?_) _
        rw [ofValue_upperCase]
        rfl

end Argument

/-! ## Statements -/

theorem parseItem_upperAscii {t : Text} (h : '"' ∉ t) :
    parseItem (upperAscii t) = recased (List.map Value.upperCase) (parseItem t) := by
  have plain : t.head? ≠ some '"' := fun first => h (List.mem_of_mem_head? first)
  have upperPlain : (upperAscii t).head? ≠ some '"' := fun first => plain ((head?_upperAscii t (by decide)).mp first)
  rw [parseItem_of_value plain, parseItem_of_value upperPlain, Value.parse_upperAscii]
  refine recased_bind (fun v => ?_) _
  rfl

namespace Statement

/-- A statement with its labels in upper case. -/
def upperCase : Statement → Statement
  | data values => data (values.map Value.upperCase)
  | origin target => origin target
  | basic op b a => basic op b.upperCase a.upperCase
  | special op a => special op a.upperCase

theorem parseData_upperAscii {rest : Text} (h : '"' ∉ rest) :
    parseData (upperAscii rest) = recased upperCase (parseData rest) := by
  have items : (splitItems (upperAscii rest)).mapM parseItem =
      recased (List.map (List.map Value.upperCase)) ((splitItems rest).mapM parseItem) := by
    rw [splitItems_upperAscii]
    exact mapM_recased fun item hi => parseItem_upperAscii fun quote => h (mem_of_mem_splitItems hi quote)
  have empty : (splitItems (upperAscii rest)).all List.isEmpty = (splitItems rest).all List.isEmpty := by
    rw [splitItems_upperAscii, List.all_map]
    exact congrArg _ (funext fun item => List.isEmpty_map)
  simp only [parseData, items, empty, recased_ite]
  congr 1
  refine recased_bind (fun vss => ?_) _
  show Except.ok (data _) = Except.ok (data _)
  rw [List.map_flatten]

theorem parseOrigin_upperAscii (rest : Text) :
    parseOrigin (upperAscii rest) = recased upperCase (parseOrigin rest) := by
  rw [parseOrigin, parseOrigin, Value.parse_upperAscii]
  refine recased_bind (fun v => ?_) _
  cases v <;> rfl

theorem parseBasic_upperAscii (op : BasicOp) (rest : Text) :
    parseBasic op (upperAscii rest) = recased upperCase (parseBasic op rest) := by
  simp only [parseBasic, splitItems_upperAscii]
  match splitItems rest with
  | [] => rfl
  | [_] => rfl
  | [b, a] =>
    simp only [List.map_cons, List.map_nil, Argument.parse_upperAscii]
    refine recased_bind (fun b => ?_) _
    refine recased_bind (fun a => ?_) _
    rfl
  | _ :: _ :: _ :: _ => simp [recased, Problem.upperCase, Malformation.upperCase]

theorem parseSpecial_upperAscii (op : SpecialOp) (rest : Text) :
    parseSpecial op (upperAscii rest) = recased upperCase (parseSpecial op rest) := by
  simp only [parseSpecial, splitItems_upperAscii]
  match splitItems rest with
  | [] => rfl
  | [a] =>
    simp only [List.map_cons, List.map_nil, Argument.parse_upperAscii]
    refine recased_bind (fun a => ?_) _
    rfl
  | _ :: _ :: _ => simp [recased, Problem.upperCase, Malformation.upperCase]

theorem parse_upperAscii {t : Text} (h : '"' ∉ t) : parse (upperAscii t) = recased upperCase (parse t) := by
  have rest : '"' ∉ trim (breakAtBlank t).2 := fun quote =>
    h ((List.dropWhile_suffix _).subset (mem_of_mem_trim quote))
  simp only [parse, breakAtBlank_upperAscii, upper_upperAscii, trim_upperAscii, recased_ite, parseData_upperAscii rest,
    parseOrigin_upperAscii]
  congr 2
  cases BasicOp.ofMnemonic? (upper (breakAtBlank t).1) with
  | some op => exact parseBasic_upperAscii op _
  | none =>
    cases SpecialOp.ofMnemonic? (upper (breakAtBlank t).1) with
    | some op => exact parseSpecial_upperAscii op _
    | none => rfl

end Statement

/-! ## Layouts -/

namespace Layout

theorem cell_upperCase (line : Nat) (v : Value) : v.upperCase.cell line = v.cell line := by
  cases v with
  | number w => rfl
  | label name => simp only [Value.upperCase, Value.cell, upper_upperAscii]

theorem define_upperAscii (l : Layout) (name : Text) : l.define (upperAscii name) = recased id (l.define name) := by
  simp only [define, isName_upperAscii, upper_upperAscii, recased_ite]
  rfl

theorem place_upperCase (l : Layout) (line : Nat) (st : Statement) : l.place line st.upperCase = l.place line st := by
  have cells (vs : List Value) : (vs.map Value.upperCase).map (·.cell line) = vs.map (·.cell line) := by
    rw [List.map_map]
    exact List.map_congr_left fun v _ => cell_upperCase line v
  have next (a : Argument) : a.upperCase.next.toList = a.next.toList.map Value.upperCase := Option.toList_map
  cases st with
  | data values => simp only [place, Statement.upperCase, cells]
  | origin target => rfl
  | basic op b a =>
    simp only [place, Statement.upperCase, next, ← List.map_append, cells]
    rfl
  | special op a =>
    simp only [place, Statement.upperCase, next, cells]
    rfl

theorem recased_place (l : Layout) (line : Nat) (st : Statement) : recased id (l.place line st) = l.place line st := by
  cases st with
  | origin target =>
    simp only [place, recased_ite]
    rfl
  | data _ | basic _ _ _ | special _ _ => rfl

/-- A line in upper case is laid out as the line is. -/
theorem addLine_upperAscii (l : Layout) (line : Nat) {t : Text} (h : '"' ∉ t) :
    l.addLine line (upperAscii t) = recased id (l.addLine line t) := by
  have names : ((splitLine t).1.map upperAscii).foldlM define l = recased id ((splitLine t).1.foldlM define l) :=
    foldlM_recased (f := id) define_upperAscii _ l
  have statement : '"' ∉ (splitLine t).2 := fun quote => h (subset_splitLine t quote)
  have empty : (upperAscii (splitLine t).2).isEmpty = (splitLine t).2.isEmpty := List.isEmpty_map
  simp only [addLine, splitLine_upperAscii, names, empty]
  refine recased_bind (fun l => ?_) _
  rw [recased_ite]
  congr 1
  rw [Statement.parse_upperAscii statement]
  refine recased_bind (fun st => ?_) _
  rw [place_upperCase, recased_place]
  rfl

end Layout

/-! ## Programs -/

/-- An error with the texts that it names in upper case. -/
def AssemblyError.upperCase : AssemblyError → AssemblyError
  | inLine line p => inLine line p.upperCase
  | tooLarge size => tooLarge size

/-- The number of the line that an error is in, or the size of the program that is too large. -/
def AssemblyError.place : AssemblyError → Nat
  | inLine line _ => line
  | tooLarge size => size

theorem AssemblyError.kind_upperCase (e : AssemblyError) : e.upperCase.kind = e.kind := by
  cases e with
  | inLine line p => cases p <;> rfl
  | tooLarge size => rfl

theorem AssemblyError.place_upperCase (e : AssemblyError) : e.upperCase.place = e.place := by
  cases e <;> rfl

namespace Layout

theorem addLines_upperAscii (l : Layout) (line : Nat) {ts : List Text} (h : ∀ t ∈ ts, '"' ∉ t) :
    l.addLines line (ts.map upperAscii) = (l.addLines line ts).mapError AssemblyError.upperCase := by
  induction ts generalizing l line with
  | nil => rfl
  | cons t ts ih =>
    rw [List.map_cons, addLines, addLines, addLine_upperAscii l line (h t (List.mem_cons_self ..))]
    cases l.addLine line t with
    | error p => rfl
    | ok l => exact ih l (line + 1) fun u hu => h u (List.mem_cons_of_mem _ hu)

theorem mapM_resolve_upperCase (symbols : List (Text × Word)) (cells : List Cell) :
    (cells.mapM (resolve symbols)).mapError AssemblyError.upperCase = cells.mapM (resolve symbols) := by
  rw [mapM_mapError]
  congr 1
  funext c
  cases c with
  | word w => rfl
  | reference label line =>
    simp only [resolve]
    cases symbols.lookup label <;> rfl

end Layout

theorem assemble_upperAscii {source : Text} (h : '"' ∉ source) :
    assemble (upperAscii source) = (assemble source).mapError AssemblyError.upperCase := by
  have lines : splitLines (upperAscii source) = (splitLines source).map upperAscii :=
    splitOn_upperAscii source (by decide)
  have plain : ∀ t ∈ splitLines source, '"' ∉ t := fun t ht quote => h (mem_of_mem_splitOn ht quote)
  rw [assemble, assemble, lines, Layout.addLines_upperAscii _ _ plain]
  cases Layout.addLines {} 1 (splitLines source) with
  | error e => rfl
  | ok l =>
    show (if Word.count < l.cells.size then _ else _) = Except.mapError _ (if Word.count < l.cells.size then _ else _)
    split
    · rfl
    · exact (Layout.mapM_resolve_upperCase ..).symm

/-- **Assembly ignores case.** A text without strings and the text in upper case give the same words, or errors of the
same kind in the same line, or of the same size. -/
theorem assemble_ignores_case {source : Text} (h : '"' ∉ source) :
    (∃ ws, assemble source = .ok ws ∧ assemble (upperAscii source) = .ok ws) ∨
      ∃ e e', assemble source = .error e ∧ assemble (upperAscii source) = .error e' ∧ e'.kind = e.kind ∧
        e'.place = e.place := by
  rw [assemble_upperAscii h]
  cases assemble source with
  | ok ws => exact .inl ⟨ws, rfl, rfl⟩
  | error e => exact .inr ⟨e, e.upperCase, rfl, rfl, e.kind_upperCase, e.place_upperCase⟩

/-- Labels, mnemonics, registers and the mark of a radix, in either case. -/
theorem assemble_ignores_case_of_loop :
    assemble "LOOP: SET PC, LOOP\nADD [SP+0X1F], A".toList = .ok [0x7f81, 0, 0x0342, 0x1f] := by
  have assembled : assemble "loop: set pc, Loop\nAdd [sp+0x1f], a".toList = .ok [0x7f81, 0, 0x0342, 0x1f] :=
    eq_ok_of_toOption (by decide +kernel)
  have raised : upperAscii "loop: set pc, Loop\nAdd [sp+0x1f], a".toList =
      "LOOP: SET PC, LOOP\nADD [SP+0X1F], A".toList := by decide
  have plain : '"' ∉ "loop: set pc, Loop\nAdd [sp+0x1f], a".toList := by decide
  rcases assemble_ignores_case plain with ⟨ws, lower, upper⟩ | ⟨e, _, failed, -⟩
  · rw [assembled] at lower
    cases lower
    rwa [raised] at upper
  · cases assembled.symm.trans failed

end Dcpu16
