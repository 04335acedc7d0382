import Dcpu16.Proofs.Assembly.Labels
import Dcpu16.Proofs.Assembly.Numerals

/-!
# Programs are relocated by an origin

A program that sets no origin itself can be put at any address by a line in front of it that does. Then every address
in it grows by that of the origin, and with them the words that stand for labels; the other words stay
(`relocated_by_origin`). Laying a program out and moving it commute: what is laid out behind the origin is what is laid
out at address zero, moved (`Layout.addLines_moved`).
-/

namespace Dcpu16

/-- The statement of a line is an origin, whatever its address is. -/
def SetsOrigin (t : Text) : Prop := upper (breakAtBlank (splitLine t).2).1 ∈ ["ORG".toList, ".ORG".toList]

instance (t : Text) : Decidable (SetsOrigin t) := inferInstanceAs (Decidable (_ ∈ _))

/-- A line that has no label and sets the origin to an address. -/
structure OriginLine (t : Text) (k : Word) : Prop where
  single : '\n' ∉ t
  unlabelled : (splitLine t).1 = []
  origin : Statement.parse (splitLine t).2 = .ok (.origin k)

/-- What the words of lines that set no origin stand for, in their order. -/
def wordValues (lines : List Text) : List Value :=
  lines.flatMap fun t =>
    match Statement.parse (splitLine t).2 with
    | .ok st => st.wordValues 0
    | .error _ => []

/-- The word of a value, once the program is moved up by `k` words. -/
def Value.relocated (k : Word) (v : Value) (w : Word) : Word := if v.label?.isSome then w + k else w

/-- The word of a cell, once the program is moved up by `k` words. -/
def Cell.relocated (k : Word) (c : Cell) (w : Word) : Word := if c.reference?.isSome then w + k else w

/-- The same place in a program one line further down. -/
def Cell.below : Cell → Cell
  | word w => word w
  | reference label line => reference label (line + 1)

/-- The same error one line further down. -/
def AssemblyError.below : AssemblyError → AssemblyError
  | inLine line p => inLine (line + 1) p
  | tooLarge size => tooLarge size

/-- Labels moved up by `k` words. -/
def movedLabels (k : Word) (symbols : List (Text × Word)) : List (Text × Word) := symbols.map fun s => (s.1, s.2 + k)

theorem lookup_movedLabels (k : Word) (symbols : List (Text × Word)) (x : Text) :
    (movedLabels k symbols).lookup x = (symbols.lookup x).map (· + k) := by
  induction symbols with
  | nil => rfl
  | cons s symbols ih =>
    show ((s.1, s.2 + k) :: movedLabels k symbols).lookup x = _
    rw [List.lookup_cons, List.lookup_cons, ih]
    cases x == s.1 <;> rfl

theorem cell_succ (v : Value) (line : Nat) : v.cell (line + 1) = (v.cell line).below := by cases v <;> rfl

/-! ## Moving a layout -/

namespace Layout

/-- A layout moved up by `k` words and down by one line, with zeros in front. -/
def moved (k : Word) (l : Layout) : Layout where
  cells := (List.replicate k.toNat (Cell.word 0) ++ l.cells.toList.map Cell.below).toArray
  symbols := movedLabels k l.symbols

section
variable (k : Word) (l : Layout) {line : Nat}

theorem size_moved : (l.moved k).cells.size = k.toNat + l.cells.size := by simp [moved]

theorem address_moved : (l.moved k).address = l.address + k := by
  rw [address, size_moved, Nat.add_comm, UInt16.ofNat_add, UInt16.ofNat_toNat]
  rfl

theorem append_moved (cells : List Cell) : (l.moved k).append (cells.map Cell.below) = (l.append cells).moved k := by
  simp [append, moved]

theorem define_moved (name : Text) : (l.moved k).define name = (l.define name).map (moved k) := by
  have found : ((l.moved k).symbols.lookup (upper name)).isSome = (l.symbols.lookup (upper name)).isSome := by
    show ((movedLabels k l.symbols).lookup (upper name)).isSome = _
    rw [lookup_movedLabels, Option.isSome_map]
  unfold define
  rw [found, address_moved]
  split
  · rfl
  · split <;> rfl

theorem names_moved (names : List Text) :
    names.foldlM define (l.moved k) = (names.foldlM define l).map (moved k) := by
  induction names generalizing l with
  | nil => rfl
  | cons name names ih =>
    rw [List.foldlM_cons, List.foldlM_cons, define_moved]
    cases l.define name with
    | error p => rfl
    | ok l₁ => exact ih l₁

theorem place_moved {st : Statement} (h : ∀ target, st ≠ .origin target) :
    (l.moved k).place (line + 1) st = (l.place line st).map (moved k) := by
  have cells (vs : List Value) : vs.map (·.cell (line + 1)) = (vs.map (·.cell line)).map Cell.below := by
    rw [List.map_map]
    exact List.map_congr_left fun v _ => cell_succ v line
  cases st with
  | data vs =>
    show Except.ok ((l.moved k).append (vs.map (·.cell (line + 1)))) = _
    rw [cells, append_moved]
    rfl
  | origin target => exact absurd rfl (h target)
  | basic op b a =>
    show Except.ok ((l.moved k).append (_ :: (a.next.toList ++ b.next.toList).map (·.cell (line + 1)))) = _
    rw [cells]
    exact congrArg Except.ok (append_moved k l (.word (Instruction.basic op b.form a.form).encode :: _))
  | special op a =>
    show Except.ok ((l.moved k).append (_ :: a.next.toList.map (·.cell (line + 1)))) = _
    rw [cells]
    exact congrArg Except.ok (append_moved k l (.word (Instruction.special op a.form).encode :: _))

end

end Layout

namespace Statement

/-- Only an origin is read as one. -/
theorem name_of_parse_origin {t : Text} {target : Word} (h : parse t = .ok (.origin target)) :
    upper (breakAtBlank t).1 ∈ ["ORG".toList, ".ORG".toList] := by
  simp only [parse] at h
  split at h
  · simp only [parseData] at h
    split at h
    · cases h
    · obtain ⟨vss, -, h⟩ := bind_eq_ok.mp h
      cases h
  · split at h
    · next named => simpa using named
    · split at h
      · unfold parseBasic at h
        split at h
        · obtain ⟨b, -, h⟩ := bind_eq_ok.mp h
          obtain ⟨a, -, h⟩ := bind_eq_ok.mp h
          cases h
        · cases h
      · unfold parseSpecial at h
        split at h
        · obtain ⟨a, -, h⟩ := bind_eq_ok.mp h
          cases h
        · cases h
      · cases h

end Statement

theorem ne_origin_of_parse {t : Text} (plain : ¬ SetsOrigin t) {st : Statement}
    (h : Statement.parse (splitLine t).2 = .ok st) (target : Word) : st ≠ .origin target := by
  rintro rfl
  exact plain (Statement.name_of_parse_origin h)

namespace Layout

section
variable (k : Word) {line : Nat}

theorem addLine_moved (l : Layout) {t : Text} (plain : ¬ SetsOrigin t) :
    (l.moved k).addLine (line + 1) t = (l.addLine line t).map (moved k) := by
  unfold addLine
  simp only [names_moved]
  cases (splitLine t).1.foldlM define l with
  | error p => rfl
  | ok l₁ =>
    show (if (splitLine t).2.isEmpty then pure (l₁.moved k) else _) = Except.map _ (if _ then _ else _)
    split
    · rfl
    · cases parsed : Statement.parse (splitLine t).2 with
      | error p => rfl
      | ok st => exact place_moved k l₁ (ne_origin_of_parse plain parsed)

/-- **Laying lines out and moving them commute**; an error stands one line further down. -/
theorem addLines_moved (l : Layout) {ts : List Text} (plain : ∀ t ∈ ts, ¬ SetsOrigin t) :
    (l.moved k).addLines (line + 1) ts = ((l.addLines line ts).map (moved k)).mapError AssemblyError.below := by
  induction ts generalizing l line with
  | nil => rfl
  | cons t ts ih =>
    have first : (l.moved k).addLine (line + 1) t = (l.addLine line t).map (moved k) :=
      addLine_moved k l (plain t (List.mem_cons_self ..))
    rw [addLines, addLines, first]
    cases l.addLine line t with
    | error p => rfl
    | ok l₁ => exact ih l₁ fun u hu => plain u (List.mem_cons_of_mem _ hu)

theorem addLines_originLine {head : Text} (h : OriginLine head k) (ts : List Text) :
    addLines {} 1 (head :: ts) = (moved k {}).addLines 2 ts := by
  have ahead : ¬ k.toNat < ({} : Layout).cells.size := Nat.not_lt_zero _
  have statement : (splitLine head).2.isEmpty = false := by
    cases empty : (splitLine head).2 with
    | nil =>
      have parsed := h.origin
      rw [empty] at parsed
      cases parsed
    | cons c cs => rfl
  have placed : addLine {} 1 head = .ok (moved k {}) := by
    unfold addLine
    simp only [h.unlabelled, statement, h.origin, bind, Except.bind, List.foldlM_nil, pure, Except.pure,
      Bool.false_eq_true, if_false, place, if_neg ahead]
    simp [moved, append, movedLabels]
  rw [addLines, placed]

end

/-! ## The words of a layout that is moved -/

theorem resolve_moved (k : Word) {symbols : List (Text × Word)} {c : Cell} {w : Word} (h : resolve symbols c = .ok w) :
    resolve (movedLabels k symbols) c.below = .ok (c.relocated k w) := by
  cases c with
  | word v => exact h
  | reference label line =>
    cases found : symbols.lookup label with
    | none =>
      simp only [resolve, found] at h
      cases h
    | some p =>
      simp only [resolve, found] at h
      cases Except.ok.inj h
      simp only [Cell.below, resolve, lookup_movedLabels, found]
      rfl

theorem mapM_resolve_moved (k : Word) {symbols : List (Text × Word)} {cells : List Cell} {ws : List Word}
    (h : cells.mapM (resolve symbols) = .ok ws) :
    (cells.map Cell.below).mapM (resolve (movedLabels k symbols)) = .ok (List.zipWith (Cell.relocated k) cells ws) := by
  induction cells generalizing ws with
  | nil => rw [mapM_nil_eq_ok.mp h]; rfl
  | cons c cells ih =>
    obtain ⟨w, ws, first, rest, rfl⟩ := mapM_cons_eq_ok.mp h
    exact mapM_cons_eq_ok.mpr ⟨_, _, resolve_moved k first, ih rest, rfl⟩

/-- The references of lines are laid out where the lines have words for labels. -/
theorem isReference_addLines {l l' : Layout} {line : Nat} {ts : List Text} (plain : ∀ t ∈ ts, ¬ SetsOrigin t)
    (h : l.addLines line ts = .ok l') :
    l'.cells.toList.map (·.reference?.isSome) =
      l.cells.toList.map (·.reference?.isSome) ++ (wordValues ts).map (·.label?.isSome) := by
  induction ts generalizing l line with
  | nil => simp [← Except.ok.inj h, wordValues]
  | cons t ts ih =>
    obtain ⟨l₁, first, rest⟩ := addLines_cons_eq_ok.mp h
    rw [ih (fun u hu => plain u (List.mem_cons_of_mem _ hu)) rest]
    have both : wordValues (t :: ts) = wordValues [t] ++ wordValues ts := by simp [wordValues]
    rw [both, List.map_append, ← List.append_assoc]
    congr 1
    rcases cells_addLine first with ⟨empty, same⟩ | ⟨st, hst, cells⟩
    · have none : wordValues [t] = [] := by
        simp only [wordValues, List.flatMap_singleton, empty]
        rfl
      rw [same, none, List.map_nil, List.append_nil]
    · have own : st.wordValues l.cells.size = wordValues [t] := by
        simp only [wordValues, List.flatMap_singleton, hst]
        cases st with
        | origin target => exact absurd rfl (ne_origin_of_parse (plain t (List.mem_cons_self ..)) hst target)
        | data | basic | special => rfl
      rw [cells, List.map_append, List.map_map, own]
      congr 1
      exact List.map_congr_left fun v _ => by cases v <;> rfl

end Layout

/-! ## Lines that set an origin -/

/-- A line that names an origin sets it, if a text that is trimmed and holds nothing else is read as the address. -/
theorem originLine_of_value {t : Text} {k : Word} (trimmed : Trimmed t) (visible : t ≠ []) (newline : '\n' ∉ t)
    (comment : ';' ∉ t) (h : Value.parse t = .ok (.number k)) : OriginLine ("ORG ".toList ++ t) k := by
  have word : ∀ c ∈ "ORG".toList, isBlank c = false ∧ c ≠ ':' := by decide
  have outer : Trimmed ("ORG".toList ++ ' ' :: t) :=
    Trimmed.append_append (t := "ORG".toList) (by decide) trimmed (by decide) visible [' ']
  have plain : ';' ∉ "ORG".toList ++ ' ' :: t := by simp [comment]
  have line : splitLine ("ORG".toList ++ ' ' :: t) = ([], "ORG".toList ++ ' ' :: t) :=
    splitLine_of_word word (by decide) outer plain
  refine ⟨by simp [newline], ?_, ?_⟩
  · show (splitLine ("ORG".toList ++ ' ' :: t)).1 = []
    rw [line]
  · show Statement.parse (splitLine ("ORG".toList ++ ' ' :: t)).2 = _
    have broken := breakAtBlank_append_cons (fun c hc => (word c hc).1) (by decide : isBlank ' ') t
    have rest : trim (' ' :: t) = t := by rw [trim_cons_of_isBlank (by decide), trim_of_trimmed trimmed]
    have name : upper "ORG".toList = "ORG".toList := by decide
    rw [line]
    simp only [Statement.parse, broken, name, rest, Statement.parseOrigin, h]
    rfl

/-! ## Programs -/

theorem splitLines_cons {head : Text} (h : '\n' ∉ head) (source : Text) :
    splitLines (head ++ '\n' :: source) = head :: splitLines source := by
  rw [splitLines, splitOn_append h, splitOn_cons, if_pos rfl]
  simp [splitLines]

theorem assemble_of_error {source : Text} {e : AssemblyError} (h : Layout.addLines {} 1 (splitLines source) = .error e) :
    assemble source = .error e := by
  rw [assemble, h]
  rfl

theorem below_of_addLines {l : Layout} {line : Nat} {ts : List Text} {e : AssemblyError}
    (h : l.addLines line ts = .error e) : ∃ n p, e = .inLine n p := by
  induction ts generalizing l line with
  | nil => cases h
  | cons t ts ih =>
    rw [Layout.addLines] at h
    split at h
    · exact ih h
    · next p _ => exact ⟨line, p, (Except.error.inj h).symm⟩

section
variable {source head : Text} {k : Word}

/-- The layout of a program behind a line that sets its origin is that of the program, moved. -/
theorem addLines_relocated (plain : ∀ t ∈ splitLines source, ¬ SetsOrigin t) (h : OriginLine head k) :
    Layout.addLines {} 1 (splitLines (head ++ '\n' :: source)) =
      ((Layout.addLines {} 1 (splitLines source)).map (Layout.moved k)).mapError AssemblyError.below := by
  rw [splitLines_cons h.single, Layout.addLines_originLine k h, Layout.addLines_moved k {} plain]

theorem assemble_relocated (plain : ∀ t ∈ splitLines source, ¬ SetsOrigin t) (h : OriginLine head k)
    {words : List Word} (assembled : assemble source = .ok words) (fits : k.toNat + words.length ≤ Word.count) :
    words.length = (wordValues (splitLines source)).length ∧
      assemble (head ++ '\n' :: source) = .ok (List.replicate k.toNat 0 ++
        List.zipWith (Value.relocated k) (wordValues (splitLines source)) words) := by
  obtain ⟨l, hl, hw⟩ := assemble_eq_ok assembled
  have size : l.cells.size = words.length := by rw [length_of_mapM_eq_ok hw, Array.length_toList]
  have kinds := Layout.isReference_addLines plain hl
  rw [show ({} : Layout).cells.toList = [] from rfl, List.map_nil, List.nil_append] at kinds
  constructor
  · have lengths := congrArg List.length kinds
    rw [List.length_map, List.length_map, Array.length_toList] at lengths
    omega
  · have laid : Layout.addLines {} 1 (splitLines (head ++ '\n' :: source)) = .ok (l.moved k) := by
      rw [addLines_relocated plain h, hl]
      rfl
    have zeros : (List.replicate k.toNat (Cell.word 0)).mapM (Layout.resolve (movedLabels k l.symbols)) =
        .ok (List.replicate k.toNat 0) := by
      rw [← Layout.mapM_resolve_words (List.replicate k.toNat 0), List.map_replicate]
    -- the words for labels are those of the cells that are references
    have same : List.zipWith (Cell.relocated k) l.cells.toList words =
        List.zipWith (Value.relocated k) (wordValues (splitLines source)) words := by
      have moved := congrArg (List.zipWith (fun (label : Bool) (w : Word) => if label then w + k else w) · words) kinds
      rwa [List.zipWith_map_left, List.zipWith_map_left] at moved
    rw [assemble_of_addLines laid (by rw [Layout.size_moved]; omega), ← same]
    exact mapM_append_eq_ok.mpr ⟨_, _, zeros, Layout.mapM_resolve_moved k hw, rfl⟩

end

/-- **A program is relocated by an origin.** Behind a line that sets the origin, such as `ORG` and a numeral, a program
that sets none itself has its words at that address, as long as they fit into memory. Those that stand for labels grow
by the origin and the others stay. If the first pass fails, it fails for the same reason one line further down. -/
theorem relocated_by_origin {source : Text} (plain : ∀ t ∈ splitLines source, ¬ SetsOrigin t) (k : Word) :
    (OriginLine ("ORG ".toList ++ decimal k.toNat) k ∧ OriginLine ("ORG ".toList ++ k.numeral) k) ∧
      ∀ head, OriginLine head k →
        (∀ words, assemble source = .ok words → k.toNat + words.length ≤ Word.count →
          words.length = (wordValues (splitLines source)).length ∧
            assemble (head ++ '\n' :: source) = .ok (List.replicate k.toNat 0 ++
              List.zipWith (Value.relocated k) (wordValues (splitLines source)) words)) ∧
          ∀ e, Layout.addLines {} 1 (splitLines source) = .error e →
            ∃ line p, e = .inLine line p ∧ assemble source = .error (.inLine line p) ∧
              assemble (head ++ '\n' :: source) = .error (.inLine (line + 1) p) := by
  refine ⟨⟨?_, ?_⟩, ?_⟩
  · have digits {c : Char} (hc : c ∈ decimal k.toNat) : c.isDigit := isDigit_of_mem_decimal hc
    apply originLine_of_value (trimmed_decimal _) (decimal_ne_nil _) _ _ (parse_decimal k)
    · intro newline
      cases digits newline
    · intro comment
      cases digits comment
  · apply originLine_of_value (trimmed_numeral k) (List.cons_ne_nil _ _) _ _ (parse_numeral k)
    · intro newline
      exact absurd (mem_numeral newline) (by decide)
    · intro comment
      exact absurd (mem_numeral comment) (by decide)
  · intro head origin
    refine ⟨fun words assembled fits => assemble_relocated plain origin assembled fits, ?_⟩
    intro e failed
    obtain ⟨line, p, rfl⟩ := below_of_addLines failed
    have moved := addLines_relocated plain origin
    rw [failed] at moved
    exact ⟨line, p, rfl, assemble_of_error failed, assemble_of_error moved⟩

/-- A loop that jumps to its own label, with data behind it. -/
theorem relocated_by_origin_of_loop :
    assemble "ORG 16\nloop: SET PC, loop\nDAT 7, LOOP".toList =
      .ok (List.replicate 16 0 ++ [0x7f81, 16, 7, 16]) := by
  have plain : ∀ t ∈ splitLines "loop: SET PC, loop\nDAT 7, LOOP".toList, ¬ SetsOrigin t := by decide +kernel
  have assembled : assemble "loop: SET PC, loop\nDAT 7, LOOP".toList = .ok [0x7f81, 0, 7, 0] :=
    eq_ok_of_toOption (by decide +kernel)
  obtain ⟨⟨origin, -⟩, relocated⟩ := relocated_by_origin plain 16
  have values : wordValues (splitLines "loop: SET PC, loop\nDAT 7, LOOP".toList) =
      [.number 0x7f81, .label "loop".toList, .number 7, .label "LOOP".toList] := by decide +kernel
  have words := ((relocated _ origin).1 _ assembled (by decide)).2
  rw [values] at words
  exact words

end Dcpu16
