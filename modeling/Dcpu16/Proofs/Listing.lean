import Dcpu16.Proofs.Assembly.RoundTrip

/-!
# Listings cover their images

The listing of an image has a line for each instruction on the walk through the image in memory, and the words in its
last column, one line behind the other, are the image (`Listing.listing_covers_image`). Each text is the one that memory
has at the address of its line. Only the last instruction may differ: in memory it goes on behind the image, while the
listing ends with the image and shows what is left of it as data.
-/

namespace Dcpu16

open Memory

namespace Listing

/-! ## Columns -/

/-- The columns of a line: its address, its text and its words. -/
@[ext]
structure Columns where
  address : Text
  text : Text
  words : List Text
  deriving DecidableEq

/-- The columns of a line as it is written: the address ends at the colon and the text at the semicolon, with blanks
around it, and behind that stand the words with a blank between them. -/
def columns (row : Text) : Columns where
  address := row.takeWhile (· ≠ ':')
  text := trim (((row.dropWhile (· ≠ ':')).drop 1).takeWhile (· ≠ ';'))
  words := splitOn ' ' ((row.dropWhile (· ≠ ';')).drop 2)

/-- The lines above those of the instructions. -/
def heading : List Text := ["; DCPU-16 Disassembly".toList, "; -------------------".toList, []]

/-- A line as it is written, without the line feed. -/
def Line.row (l : Line) : Text :=
  hexNumeral 4 l.address ++ ':' :: (' ' :: padRight 28 l.text ++ [' ']) ++ ';' :: ' ' ::
    [' '].intercalate (l.words.map Word.hex)

theorem written_eq : Line.written = fun l => l.row ++ ['\n'] := by
  funext l
  simp [Line.written, Line.row]

theorem listing_eq (image : List Word) :
    listing image = (heading ++ (lines 0 [] image).map Line.row).flatMap (· ++ ['\n']) := by
  have head : heading.flatMap (· ++ ['\n']) = "; DCPU-16 Disassembly\n; -------------------\n\n".toList := by
    simp [heading]
  rw [List.flatMap_append, head, List.flatMap_map, ← written_eq]
  unfold listing
  rfl

/-- A line whose columns can be told from each other. -/
structure Line.Clear (l : Line) : Prop where
  address : l.address < 0x10000
  trimmed : Trimmed l.text
  no_semicolon : ';' ∉ l.text
  no_newline : '\n' ∉ l.text
  words : l.words ≠ []

theorem takeWhile_ne {c : Char} {t : Text} (h : c ∉ t) (rest : Text) : (t ++ c :: rest).takeWhile (· ≠ c) = t := by
  rw [List.takeWhile_append_of_pos fun d hd => decide_eq_true (ne_of_mem_of_not_mem hd h)]
  simp

theorem dropWhile_ne {c : Char} {t : Text} (h : c ∉ t) (rest : Text) :
    (t ++ c :: rest).dropWhile (· ≠ c) = c :: rest := by
  rw [List.dropWhile_append_of_pos fun d hd => decide_eq_true (ne_of_mem_of_not_mem hd h)]
  simp

section
variable {l : Line}

theorem not_mem_middle {c : Char} (hb : c ≠ ' ') (ht : c ∉ l.text) : c ∉ ' ' :: padRight 28 l.text ++ [' '] := by
  simp [padRight, List.rightpad, hb, ht]

theorem trim_middle (h : Trimmed l.text) : trim (' ' :: padRight 28 l.text ++ [' ']) = l.text := by
  have blank : Blank (List.replicate (28 - l.text.length) ' ' ++ [' ']) := by
    intro c hc
    rcases List.mem_append.mp hc with hc | hc
    · exact List.eq_of_mem_replicate hc ▸ by decide
    · exact List.mem_singleton.mp hc ▸ by decide
  rw [List.cons_append, trim_cons_of_isBlank (by decide), padRight, List.rightpad, List.append_assoc,
    trim_append_right blank, trim_of_trimmed h]

/-- The columns of a clear line are read back. -/
theorem columns_row (h : l.Clear) : columns l.row = ⟨hexDigits 4 l.address, l.text, l.words.map Word.hex⟩ := by
  have address : hexNumeral 4 l.address = hexDigits 4 l.address := hexNumeral_eq_hexDigits h.address
  have digit {c : Char} (hc : c ∉ numeralChars) : c ∉ hexDigits 4 l.address := fun h => hc (mem_hexDigits h)
  have middle := not_mem_middle (by decide : ';' ≠ ' ') h.no_semicolon
  have before : ';' ∉ hexDigits 4 l.address ++ ':' :: (' ' :: padRight 28 l.text ++ [' ']) := by
    simp only [List.mem_append, List.mem_cons, not_or] at middle ⊢
    exact ⟨digit (by decide), by decide, middle⟩
  have words : splitOn ' ' ([' '].intercalate (l.words.map Word.hex)) = l.words.map Word.hex :=
    splitOn_intercalate (by simpa using h.words) (List.forall_mem_map.mpr fun w _ hc => absurd (mem_hex hc) (by decide))
  rw [columns, Line.row, address]
  apply Columns.ext
  · simp only [List.append_assoc, List.cons_append]
    exact takeWhile_ne (digit (by decide)) _
  · simp only
    rw [List.append_assoc, List.cons_append, dropWhile_ne (digit (by decide : ':' ∉ numeralChars)), List.drop_one,
      List.tail_cons, takeWhile_ne middle, trim_middle h.trimmed]
  · simp only
    rw [dropWhile_ne before]
    exact words

theorem newline_not_mem_row (h : l.Clear) : '\n' ∉ l.row := by
  have address : hexNumeral 4 l.address = hexDigits 4 l.address := hexNumeral_eq_hexDigits h.address
  have middle := not_mem_middle (by decide : '\n' ≠ ' ') h.no_newline
  have words : ∀ c ∈ [' '].intercalate (l.words.map Word.hex), c ≠ '\n' := by
    refine forall_mem_intercalate (by decide) (List.forall_mem_map.mpr fun w _ c hc => ?_)
    rintro rfl
    exact absurd (mem_hex hc) (by decide)
  rw [Line.row, address]
  simp only [List.mem_append, List.mem_cons, not_or] at middle ⊢
  exact ⟨⟨fun hc => absurd (mem_hexDigits hc) (by decide), by decide, middle⟩, by decide, by decide,
    fun hc => words _ hc rfl⟩

end

/-! ## Lines of an image -/

/-- The line of the instruction at an address of an image. -/
def lineIn (image : List Word) (p : Nat) : Line :=
  let w := image[p]?.getD 0
  line p w ((image.drop (p + 1)).take (w.instructionLength - 1))

theorem clear_lineIn {image : List Word} {p : Nat} (h : p < 0x10000) : (lineIn image p).Clear := by
  obtain ⟨word, rest, text, isLine⟩ :
      ∃ word rest, (lineIn image p).text = word ++ ' ' :: rest ∧ StatementLine word rest := by
    simp only [lineIn, line]
    split
    · exact statementLine_dataText _ _
    · exact statementLine_wordsText _ _
  exact {
    address := h
    trimmed := text ▸ isLine.trimmed
    no_semicolon := text ▸ isLine.no_semicolon
    no_newline := text ▸ isLine.no_newline
    words := List.cons_ne_nil _ _ }

theorem exists_length (mem : Memory) (p : Nat) : ∃ k, (mem.lineAt (UInt16.ofNat p)).2 = k + 1 :=
  Nat.exists_eq_succ_of_ne_zero (Nat.ne_of_gt (mem.read (UInt16.ofNat p)).instructionLength_pos)

section
variable {image : List Word} {mem : Memory} (hm : ofImage image = .ok mem) {p q : Nat}
include hm

theorem lineIn_eq (hp : p < image.length) :
    lineIn image p =
      line p (mem.read (UInt16.ofNat p)) ((image.drop (p + 1)).take ((mem.lineAt (UInt16.ofNat p)).2 - 1)) := by
  rw [lineAt, read_of_lt hm hp, lineIn, List.getElem?_eq_getElem hp]
  rfl

/-- The words of a line are those at its address, as many as the instruction has, or all that are left. -/
theorem words_lineIn (hp : p < image.length) :
    (lineIn image p).words = (image.drop p).take (mem.lineAt (UInt16.ofNat p)).2 := by
  obtain ⟨k, length⟩ := exists_length mem p
  rw [lineIn_eq hm hp, length, List.drop_eq_getElem_cons hp, List.take_succ_cons, read_of_lt hm hp]
  rfl

theorem length_words_lineIn (hp : p < image.length) (inside : p + (mem.lineAt (UInt16.ofNat p)).2 ≤ image.length) :
    (lineIn image p).words.length = (mem.lineAt (UInt16.ofNat p)).2 := by
  rw [words_lineIn hm hp, List.length_take, List.length_drop]
  omega

/-- The listing of what is left of an image is a line and the listing behind it. -/
theorem lines_drop_of_lt (hp : p < image.length) (done : List Line) :
    lines p done (image.drop p) =
      lines (p + (lineIn image p).words.length) (lineIn image p :: done)
        (image.drop (p + (mem.lineAt (UInt16.ofNat p)).2)) := by
  obtain ⟨k, length⟩ := exists_length mem p
  have taken : (image[p]).instructionLength - 1 = k := by
    rw [← read_of_lt hm hp]
    exact Nat.sub_eq_of_eq_add length
  have count : p + 1 + ((image.drop (p + 1)).take k).length = p + (lineIn image p).words.length := by
    rw [words_lineIn hm hp, length, List.drop_eq_getElem_cons hp, List.take_succ_cons, List.length_cons]
    omega
  have here : line p image[p] ((image.drop (p + 1)).take k) = lineIn image p := by
    rw [lineIn_eq hm hp, read_of_lt hm hp, length, Nat.add_sub_cancel]
  rw [List.drop_eq_getElem_cons hp, lines, taken, count, here, List.drop_drop, length]
  congr 2
  omega

/-- **The lines of a listing** are those of the instructions on the walk. -/
theorem lines_drop (p : Nat) (done : List Line) :
    lines p done (image.drop p) = done.reverse ++ (mem.starts image.length p).map (lineIn image) := by
  fun_induction starts mem image.length p generalizing done with
  | case2 p hp =>
    rw [List.drop_eq_nil_of_le (Nat.le_of_not_lt hp), lines, List.map_nil, List.append_nil]
  | case1 p hp ih =>
    rw [lines_drop_of_lt hm hp, List.map_cons]
    by_cases inside : p + (mem.lineAt (UInt16.ofNat p)).2 ≤ image.length
    · rw [length_words_lineIn hm hp inside, ih, List.reverse_cons, List.append_assoc, List.singleton_append]
    · -- the instruction goes on behind the image, so that no line follows
      rw [List.drop_eq_nil_of_le (by omega), lines, starts, if_neg (by omega), List.map_nil, List.reverse_cons]

/-! ## What the lines show -/

theorem flatMap_words (p : Nat) :
    (mem.starts image.length p).flatMap (fun q => (lineIn image q).words) = image.drop p := by
  fun_induction starts mem image.length p with
  | case2 p hp => rw [List.drop_eq_nil_of_le (Nat.le_of_not_lt hp), List.flatMap_nil]
  | case1 p hp ih => rw [List.flatMap_cons, ih, words_lineIn hm hp, ← List.drop_drop, List.take_append_drop]

/-- An instruction on the walk starts behind the words of the lines above it. -/
theorem starts_eq_append {above below : List Nat} (h : mem.starts image.length p = above ++ q :: below) :
    q < image.length ∧ q = p + (above.flatMap fun r => (lineIn image r).words).length ∧
      mem.starts image.length (q + (mem.lineAt (UInt16.ofNat q)).2) = below := by
  induction above generalizing p with
  | nil =>
    rw [starts] at h
    split at h
    · next hp =>
      obtain ⟨rfl, rfl⟩ := List.cons.inj h
      exact ⟨hp, rfl, rfl⟩
    · cases h
  | cons first above ih =>
    rw [starts] at h
    split at h
    · next hp =>
      obtain ⟨rfl, behind⟩ := List.cons.inj h
      obtain ⟨inside, count, rest⟩ := ih behind
      have size := length_words_lineIn hm hp (by omega)
      refine ⟨inside, ?_, rest⟩
      rw [List.flatMap_cons, List.length_append, size, ← Nat.add_assoc]
      exact count
    · cases h

/-- A line with all words of its instruction shows it as it is in memory. -/
theorem shows_lineIn (hp : p + (mem.lineAt (UInt16.ofNat p)).2 ≤ image.length) :
    (lineIn image p).text = (mem.lineAt (UInt16.ofNat p)).1 ∧
      (lineIn image p).words = mem.block (UInt16.ofNat p) (mem.lineAt (UInt16.ofNat p)).2 := by
  obtain ⟨k, length⟩ := exists_length mem p
  have size : (mem.read (UInt16.ofNat p)).instructionLength = k + 1 := length
  have next : (image.drop (p + 1)).take k = mem.block (UInt16.ofNat p + 1) k := by
    rw [ofNat_succ, block_ofImage hm (by omega)]
  refine ⟨?_, ?_⟩
  · have whole : ¬ (mem.block (UInt16.ofNat p + 1) k).length + 1 < k + 1 := by
      rw [length_block]
      exact Nat.lt_irrefl _
    rw [lineIn_eq hm (by omega), length, Nat.add_sub_cancel, next, line, size, if_neg whole, lineAt, size,
      Nat.add_sub_cancel]
  · rw [words_lineIn hm (by omega), block_ofImage hm hp]

/-- A line that ends with the image, but not with its instruction, shows what is left as data. -/
theorem shows_lineIn_of_lt (hp : p < image.length) (past : image.length < p + (mem.lineAt (UInt16.ofNat p)).2) :
    (lineIn image p).text = dataText (image.drop p) ∧ (lineIn image p).words = image.drop p := by
  obtain ⟨k, length⟩ := exists_length mem p
  have size : (mem.read (UInt16.ofNat p)).instructionLength = k + 1 := length
  have words : (lineIn image p).words = image.drop p := by
    rw [words_lineIn hm hp, List.take_of_length_le]
    rw [List.length_drop]
    omega
  refine ⟨?_, words⟩
  have cut : ((image.drop (p + 1)).take k).length + 1 < k + 1 := by
    rw [List.length_take, List.length_drop]
    omega
  rw [← words, lineIn_eq hm hp, length, Nat.add_sub_cancel, line, size, if_pos cut]

end

/-! ## The whole listing -/

/-- How many words lines show. -/
def count (rows : List Columns) : Nat := (rows.flatMap Columns.words).length

/-- **Lines cover an image** that is in the memory `mem`: their columns are `rows`. -/
structure Covers (mem : Memory) (image : List Word) (rows : List Columns) : Prop where
  /-- There is one line for each instruction on the walk, with its address. -/
  addresses : rows.map Columns.address = (mem.starts image.length 0).map (hexDigits 4)
  /-- The words of the lines are those of the image. -/
  words : rows.flatMap Columns.words = image.map Word.hex
  /-- As numbers they are read back. -/
  numbers : (rows.flatMap Columns.words).map (Numeral.digits? 16) = image.map fun w => some w.toNat
  /-- The address of a line is the number of words in the lines above it. -/
  address {above below : List Columns} {r : Columns} (h : rows = above ++ r :: below) :
    r.address = hexDigits 4 (count above)
  /-- A line shows the instruction that memory has at its address. -/
  whole {above below : List Columns} {r : Columns} (h : rows = above ++ r :: below)
    (inside : count above + (mem.lineAt (UInt16.ofNat (count above))).2 ≤ image.length) :
    let line := mem.lineAt (UInt16.ofNat (count above))
    r.text = line.1 ∧ r.words = (mem.block (UInt16.ofNat (count above)) line.2).map Word.hex
  /-- Only the last instruction may go on behind the image: then the words that are left of it are shown as data. -/
  cut {above below : List Columns} {r : Columns} (h : rows = above ++ r :: below)
    (past : image.length < count above + (mem.lineAt (UInt16.ofNat (count above))).2) :
    below = [] ∧ r.text = dataText (image.drop (count above)) ∧ r.words = (image.drop (count above)).map Word.hex

/-- The columns of the line of the instruction at an address. -/
def columnsIn (image : List Word) (p : Nat) : Columns :=
  ⟨hexDigits 4 p, (lineIn image p).text, (lineIn image p).words.map Word.hex⟩

theorem flatMap_columnsIn (image : List Word) (ps : List Nat) :
    (ps.map (columnsIn image)).flatMap Columns.words = (ps.flatMap fun p => (lineIn image p).words).map Word.hex := by
  rw [List.flatMap_map, List.map_flatMap]
  rfl

section
variable {image : List Word} {mem : Memory} (hm : ofImage image = .ok mem)
include hm

/-- A line stands at the address that the lines above it count up to, and the walk goes on below it. -/
theorem columnsIn_of_append {above below : List Columns} {r : Columns}
    (h : (mem.starts image.length 0).map (columnsIn image) = above ++ r :: below) :
    count above < image.length ∧ r = columnsIn image (count above) ∧
      below = (mem.starts image.length (count above + (mem.lineAt (UInt16.ofNat (count above))).2)).map
        (columnsIn image) := by
  obtain ⟨before, rest, walk, rfl, behind⟩ := List.map_eq_append_iff.mp h
  obtain ⟨p, ps, rfl, rfl, rfl⟩ := List.map_eq_cons_iff.mp behind
  obtain ⟨inside, address, further⟩ := starts_eq_append hm walk
  have here : p = count (before.map (columnsIn image)) := by
    rw [count, flatMap_columnsIn, List.length_map, ← Nat.zero_add (List.length _)]
    exact address
  rw [← here, further]
  exact ⟨inside, rfl, rfl⟩

theorem covers_columnsIn : Covers mem image ((mem.starts image.length 0).map (columnsIn image)) := by
  have words : ((mem.starts image.length 0).map (columnsIn image)).flatMap Columns.words = image.map Word.hex := by
    rw [flatMap_columnsIn, flatMap_words hm, List.drop_zero]
  constructor
  · rw [List.map_map]
    rfl
  · exact words
  · rw [words, List.map_map]
    exact List.map_congr_left fun w _ => digits?_hex w
  · intro above below r h
    obtain ⟨-, rfl, -⟩ := columnsIn_of_append hm h
    rfl
  · intro above below r h inside
    obtain ⟨-, rfl, -⟩ := columnsIn_of_append hm h
    obtain ⟨text, words⟩ := shows_lineIn hm inside
    exact ⟨text, congrArg (List.map Word.hex) words⟩
  · intro above below r h past
    obtain ⟨here, rfl, further⟩ := columnsIn_of_append hm h
    obtain ⟨text, words⟩ := shows_lineIn_of_lt hm here past
    refine ⟨?_, text, congrArg (List.map Word.hex) words⟩
    rw [further, starts, if_neg (by omega), List.map_nil]

end

/-- **A listing covers its image.** Under its heading there is one line for each instruction on the walk through the
image in memory, with the address that the lines above count up to; the words of all lines together are the image; and
the text of each line is that of the instruction in memory, but for an instruction at the end that the image cuts off.
-/
theorem listing_covers_image {image : List Word} (h : image.length ≤ Word.count) :
    ∃ mem rows, ofImage image = .ok mem ∧ splitOn '\n' (listing image) = heading ++ rows ++ [[]] ∧
      Covers mem image (rows.map columns) := by
  obtain ⟨mem, hm⟩ : ∃ mem, ofImage image = .ok mem := ⟨_, if_pos h⟩
  have clear : ∀ p ∈ mem.starts image.length 0, (lineIn image p).Clear := by
    intro p hp
    obtain ⟨above, below, walk⟩ := List.append_of_mem hp
    exact clear_lineIn (Nat.lt_of_lt_of_le (starts_eq_append hm walk).1 h)
  have rows : (((mem.starts image.length 0).map (lineIn image)).map Line.row).map columns =
      (mem.starts image.length 0).map (columnsIn image) := by
    rw [List.map_map, List.map_map]
    exact List.map_congr_left fun p hp => columns_row (clear p hp)
  refine ⟨mem, ((mem.starts image.length 0).map (lineIn image)).map Line.row, hm, ?_, rows ▸ covers_columnsIn hm⟩
  have all := lines_drop hm 0 []
  rw [List.drop_zero, List.reverse_nil, List.nil_append] at all
  rw [listing_eq, all, splitOn_flatMap, List.append_assoc]
  intro row hrow
  rcases List.mem_append.mp hrow with hrow | hrow
  · have plain : ∀ row ∈ heading, '\n' ∉ row := by simp [heading]
    exact plain row hrow
  · obtain ⟨l, hl, rfl⟩ := List.mem_map.mp hrow
    obtain ⟨p, hp, rfl⟩ := List.mem_map.mp hl
    exact newline_not_mem_row (clear p hp)

/-- The second instruction has a next word that the image does not have. -/
theorem listing_covers_image_of_cut :
    ([0x8801, 0x7f81] : List Word).length ≤ Word.count ∧
      ∃ rows, splitOn '\n' (listing [0x8801, 0x7f81]) = heading ++ rows ++ [[]] ∧
        rows.map columns = [⟨"0000".toList, "SET A, 1".toList, ["8801".toList]⟩,
          ⟨"0001".toList, "DAT 0x7f81".toList, ["7f81".toList]⟩] := by
  refine ⟨by decide, ?_⟩
  obtain ⟨mem, rows, hm, text, covers⟩ :=
    listing_covers_image (by decide : ([0x8801, 0x7f81] : List Word).length ≤ Word.count)
  have first : mem.read 0 = 0x8801 := read_ofImage hm (q := 0) (by decide)
  have second : mem.read 1 = 0x7f81 := read_ofImage hm (q := 1) (by decide)
  have length : Word.instructionLength 0x8801 = 1 := by decide
  have above : mem.lineAt 0 = ("SET A, 1".toList, 1) := by
    have printed : wordsText 0x8801 [] = "SET A, 1".toList := by decide
    rw [lineAt, first, length, ← printed]
    rfl
  have below : (mem.lineAt 1).2 = 2 := by
    simp only [lineAt, second]
    decide
  have starts : mem.starts 2 0 = [0, 1] := by simp [starts, above, below]
  have addresses : (rows.map columns).map Columns.address = [hexDigits 4 0, hexDigits 4 1] :=
    covers.addresses.trans (congrArg (List.map (hexDigits 4)) starts)
  obtain ⟨⟨_, top, topWords⟩, rest, whole, rfl, behind⟩ := List.map_eq_cons_iff.mp addresses
  obtain ⟨⟨_, last, lastWords⟩, none, rfl, rfl, ends⟩ := List.map_eq_cons_iff.mp behind
  cases List.map_eq_nil_iff.mp ends
  have inside : 0 + (mem.lineAt 0).2 ≤ 2 := by rw [above]; decide
  obtain ⟨rfl, rfl⟩ : top = (mem.lineAt 0).1 ∧ topWords = (mem.block 0 (mem.lineAt 0).2).map Word.hex :=
    covers.whole (show _ = [] ++ _ :: _ from whole) inside
  have past : 2 < 1 + (mem.lineAt 1).2 := by rw [below]; decide
  have one : count [⟨hexDigits 4 0, (mem.lineAt 0).1, (mem.block 0 (mem.lineAt 0).2).map Word.hex⟩] = 1 := by
    rw [above]
    rfl
  have cut := covers.cut (show _ = [_] ++ _ :: _ from whole)
  rw [one] at cut
  obtain ⟨-, rfl, rfl⟩ := cut past
  have word : mem.block 0 1 = [0x8801] := by rw [block_succ, first]; rfl
  refine ⟨rows, text, ?_⟩
  rw [whole, above, word]
  decide

end Listing

end Dcpu16
