import Dcpu16.Proofs.Assembly.Labels
import Dcpu16.Proofs.Assembly.Sums
import Dcpu16.Proofs.Text.Quoting

/-!
# Strings in data

A string spells its characters between two quotes: most stand for themselves, and a backslash and the character behind
it stand for one (`Spells`). Its words are the codes of the characters, and nothing in it is a comma or a comment to the
readers of the line. The reader of the item itself takes every quote between the first and the last for a character. So
it reads all strings rightly, and an item that goes on behind its string as if it were one longer string
(`strings_of_data`); two strings without a comma between them are no error (`strings_without_comma`).
-/

namespace Dcpu16

/-! ## Spelling -/

/-- What stands behind a backslash, and the character that is meant. -/
def escapes : List (Char × Char) := [('n', '\n'), ('t', '\t'), ('0', '\x00'), ('\\', '\\'), ('"', '"')]

/-- **How the inside of a string spells a text.** Characters with the property `plain` stand for themselves if their
code is that of the basic plane, and those behind a backslash stand for another one. -/
inductive Spells (plain : Char → Prop) : Text → Text → Prop
  | nil : Spells plain [] []
  | plain {c : Char} {body s : Text} (hc : plain c) (basic : c.toNat ≤ 0xffff) (h : Spells plain body s) :
    Spells plain (c :: body) (c :: s)
  | escaped {e c : Char} {body s : Text} (he : (e, c) ∈ escapes) (h : Spells plain body s) :
    Spells plain ('\\' :: e :: body) (c :: s)

/-- A text in quotes, the inside of which spells `s`. -/
def Encloses (plain : Char → Prop) (item s : Text) : Prop :=
  ∃ body, item = '"' :: (body ++ ['"']) ∧ Spells plain body s

/-- A character that is neither the end of a string nor the start of an escape. -/
def StandsAlone (c : Char) : Prop := c ≠ '"' ∧ c ≠ '\\'

/-- **A string**: no quote stands for itself in it. -/
def IsString : Text → Text → Prop := Encloses StandsAlone

/-- An item that starts with a string and has something behind it. -/
def GoesOn (item : Text) : Prop := ∃ string more s, IsString string s ∧ more ≠ [] ∧ item = string ++ more

/-- The words are the codes of the characters, one for each. -/
def Codes (s : Text) (ws : List Word) : Prop := ws.map UInt16.toNat = s.map Char.toNat

namespace Spells

variable {plain : Char → Prop} {body s : Text}

/-- A string that goes on stops where its first quote stands for itself, and one that does not has no such quote. -/
theorem alone_or (h : Spells (· ≠ '\\') body s) :
    Spells StandsAlone body s ∨ ∃ pre more t, Spells StandsAlone pre t ∧ body = pre ++ '"' :: more := by
  induction h with
  | nil => exact .inl .nil
  | @plain c body s hc basic h ih =>
    by_cases quote : c = '"'
    · exact .inr ⟨[], body, [], .nil, by rw [quote]; rfl⟩
    · rcases ih with own | ⟨pre, more, t, first, rfl⟩
      · exact .inl (.plain ⟨quote, hc⟩ basic own)
      · exact .inr ⟨c :: pre, more, c :: t, .plain ⟨quote, hc⟩ basic first, rfl⟩
  | @escaped e c body s he h ih =>
    rcases ih with own | ⟨pre, more, t, first, rfl⟩
    · exact .inl (.escaped he own)
    · exact .inr ⟨'\\' :: e :: pre, more, c :: t, .escaped he first, rfl⟩

theorem weaken (h : Spells StandsAlone body s) : Spells (· ≠ '\\') body s := by
  induction h with
  | nil => exact .nil
  | plain hc basic _ ih => exact .plain hc.2 basic ih
  | escaped he _ ih => exact .escaped he ih

/-- A reader in a string is still in it behind what the string spells, and meets no separator outside of it. -/
theorem inside (h : Spells StandsAlone body s) (sep : Char) :
    Quoting.behind .inside body = .inside ∧ Quoting.Hides sep .inside body := by
  induction h with
  | nil => exact ⟨rfl, trivial⟩
  | @plain c body s hc basic h ih =>
    have stays : Quoting.inside.next c = .inside := by simp [Quoting.next, hc.1, hc.2]
    unfold Quoting.behind Quoting.Hides
    rw [List.foldl_cons, stays]
    exact ⟨ih.1, fun out => absurd out.1 (by decide), ih.2⟩
  | escaped he h ih =>
    exact ⟨ih.1, fun out => absurd out.1 (by decide), fun out => absurd out.1 (by decide), ih.2⟩

/-- Nowhere in what the string spells is a reader outside of it. -/
theorem behind_ne {front : Text} (h : Spells StandsAlone body s) (hf : front <+: body) :
    Quoting.behind .inside front ≠ .outside := by
  obtain ⟨rest, rfl⟩ := hf
  cases rest with
  | nil =>
    have stays := (h.inside ',').1
    rw [List.append_nil] at stays
    rw [stays]
    nofun
  | cons c cs => exact fun out => (Quoting.hides_append.mp (h.inside c).2).2.1 ⟨out, rfl⟩

end Spells

section
variable {item s : Text}

/-- What separates elsewhere does not in a string. -/
theorem IsString.closed (h : IsString item s) {sep : Char} (apart : sep ≠ '"') : Quoting.Closed sep item := by
  obtain ⟨body, rfl, spelled⟩ := h
  obtain ⟨stays, hidden⟩ := spelled.inside sep
  constructor
  · refine ⟨fun both => apart both.2.symm, Quoting.hides_append.mpr ⟨hidden, ?_⟩⟩
    show Quoting.Hides sep (Quoting.behind .inside body) ['"']
    rw [stays]
    exact ⟨nofun, trivial⟩
  · show Quoting.behind .inside (body ++ ['"']) = .outside
    rw [Quoting.behind_append, stays]
    rfl

theorem not_goesOn (h : IsString item s) : ¬ GoesOn item := by
  rintro ⟨string, more, t, shorter, visible, rfl⟩
  obtain ⟨body, whole, spelled⟩ := h
  have closed := (shorter.closed (by decide : ',' ≠ '"')).behind_eq
  obtain ⟨pre, rfl, -⟩ := shorter
  have rest : (pre ++ ['"']) ++ more = body ++ ['"'] := (List.cons.inj whole).2
  have short : (pre ++ ['"']).length ≤ body.length := by
    have := List.length_pos_iff.mpr visible
    have := congrArg List.length rest
    simp only [List.length_append, List.length_singleton] at *
    omega
  have front : pre ++ ['"'] <+: body :=
    List.prefix_of_prefix_length_le ⟨more, rest⟩ (List.prefix_append _ _) short
  exact spelled.behind_ne front closed

/-- An item in quotes is a string, unless it goes on behind one. -/
theorem isString_iff : (∃ s, IsString item s) ↔ (∃ s, Encloses (· ≠ '\\') item s) ∧ ¬ GoesOn item := by
  constructor
  · rintro ⟨s, h⟩
    have single := not_goesOn h
    obtain ⟨body, rfl, spelled⟩ := h
    exact ⟨⟨s, body, rfl, spelled.weaken⟩, single⟩
  · rintro ⟨⟨s, body, rfl, spelled⟩, single⟩
    rcases spelled.alone_or with own | ⟨pre, more, t, first, rfl⟩
    · exact ⟨s, body, rfl, own⟩
    · exact absurd ⟨'"' :: (pre ++ ['"']), more ++ ['"'], t, ⟨pre, rfl, first⟩, by simp, by simp⟩ single

end

/-! ## Reading an item -/

theorem escaped?_eq_some {e c : Char} : escaped? e = some c ↔ (e, c) ∈ escapes := by
  constructor
  · intro h
    unfold escaped? at h
    split at h <;> cases h <;> decide
  · intro h
    simp only [escapes, List.mem_cons, Prod.mk.injEq, List.not_mem_nil, or_false] at h
    rcases h with ⟨rfl, rfl⟩ | ⟨rfl, rfl⟩ | ⟨rfl, rfl⟩ | ⟨rfl, rfl⟩ | ⟨rfl, rfl⟩ <;> rfl

theorem charWord_eq_ok {c : Char} {w : Word} : charWord c = .ok w ↔ c.toNat ≤ 0xffff ∧ w.toNat = c.toNat := by
  unfold charWord
  split
  · next basic =>
    rw [and_iff_right basic, Except.ok.injEq, ← UInt16.toNat_inj, UInt16.toNat_ofNat', Nat.mod_eq_of_lt (by omega)]
    exact eq_comm
  · next wide => exact iff_of_false nofun fun both => wide both.1

/-- A character and what is spelled behind it are read one after the other. -/
theorem stringWords_go_step {done : List Word} {c : Char} {cs : Text} {ws : List Word}
    (rest : ∀ w, stringWords.go (w :: done) cs = .ok ws ↔
      ∃ s vs, Spells (· ≠ '\\') cs s ∧ Codes s vs ∧ ws = (w :: done).reverse ++ vs) :
    (do stringWords.go ((← charWord c) :: done) cs) = .ok ws ↔
      c.toNat ≤ 0xffff ∧ ∃ s vs, Spells (· ≠ '\\') cs s ∧ Codes (c :: s) vs ∧ ws = done.reverse ++ vs := by
  simp only [bind_eq_ok, rest, charWord_eq_ok, List.reverse_cons, List.append_assoc, List.singleton_append]
  constructor
  · rintro ⟨w, ⟨basic, code⟩, s, vs, spelled, codes, rfl⟩
    exact ⟨basic, s, w :: vs, spelled, List.cons_eq_cons.mpr ⟨code, codes⟩, rfl⟩
  · rintro ⟨basic, s, _ | ⟨w, vs⟩, spelled, codes, rfl⟩
    · cases codes
    · obtain ⟨code, codes⟩ := List.cons.inj codes
      exact ⟨w, ⟨basic, code⟩, s, vs, spelled, codes, rfl⟩

/-- The codes of the characters that are spelled are put behind the words so far. -/
theorem stringWords_go_eq_ok {done : List Word} {body : Text} {ws : List Word} :
    stringWords.go done body = .ok ws ↔
      ∃ s vs, Spells (· ≠ '\\') body s ∧ Codes s vs ∧ ws = done.reverse ++ vs := by
  fun_induction stringWords.go done body with
  | case1 done =>
    constructor
    · intro h
      exact ⟨[], [], .nil, rfl, by simpa using (Except.ok.inj h).symm⟩
    · rintro ⟨s, vs, spelled, codes, rfl⟩
      cases spelled
      rw [List.map_eq_nil_iff.mp codes, List.append_nil]
  | case2 done =>
    refine iff_of_false nofun ?_
    rintro ⟨s, vs, spelled, -⟩
    cases spelled with
    | plain hc => exact hc rfl
  | case3 done e cs unknown =>
    refine iff_of_false nofun ?_
    rintro ⟨s, vs, spelled, -⟩
    cases spelled with
    | plain hc => exact hc rfl
    | escaped he => cases unknown.symm.trans (escaped?_eq_some.mpr he)
  | case4 done e cs c known ih =>
    have pair := escaped?_eq_some.mp known
    have basic : c.toNat ≤ 0xffff := by
      have all : ∀ pair ∈ escapes, pair.2.toNat ≤ 0xffff := by decide
      exact all _ pair
    rw [stringWords_go_step ih, and_iff_right basic]
    constructor
    · rintro ⟨s, vs, spelled, codes, rfl⟩
      exact ⟨c :: s, vs, .escaped pair spelled, codes, rfl⟩
    · rintro ⟨s, vs, spelled, codes, rfl⟩
      cases spelled with
      | plain hc => exact absurd rfl hc
      | escaped he spelled =>
        cases Option.some.inj (known.symm.trans (escaped?_eq_some.mpr he))
        exact ⟨_, vs, spelled, codes, rfl⟩
  | case5 done c cs last other ih =>
    have own : c ≠ '\\' := by
      rintro rfl
      cases cs with
      | nil => exact last rfl rfl
      | cons e cs => exact other e cs rfl rfl
    rw [stringWords_go_step ih]
    constructor
    · rintro ⟨basic, s, vs, spelled, codes, rfl⟩
      exact ⟨c :: s, vs, .plain own basic spelled, codes, rfl⟩
    · rintro ⟨s, vs, spelled, codes, rfl⟩
      cases spelled with
      | plain hc basic spelled => exact ⟨basic, _, vs, spelled, codes, rfl⟩
      | escaped => exact absurd rfl own

theorem stringWords_eq_ok {body : Text} {ws : List Word} :
    stringWords body = .ok ws ↔ ∃ s, Spells (· ≠ '\\') body s ∧ Codes s ws := by
  rw [stringWords, stringWords_go_eq_ok]
  constructor
  · rintro ⟨s, vs, spelled, codes, rfl⟩
    exact ⟨s, spelled, codes⟩
  · rintro ⟨s, spelled, codes⟩
    exact ⟨s, ws, spelled, codes, rfl⟩

/-- An item that starts with a quote is read if and only if it is a text in quotes, whatever quotes are in it. -/
theorem parseItem_eq_ok {item : Text} (quoted : item.head? = some '"') {vs : List Value} :
    parseItem item = .ok vs ↔ ∃ s ws, Encloses (· ≠ '\\') item s ∧ Codes s ws ∧ vs = ws.map .number := by
  obtain ⟨rest, rfl⟩ := List.head?_eq_some_iff.mp quoted
  have opened : parseItem ('"' :: rest) = if rest.getLast? = some '"' then
      (do return (← stringWords rest.dropLast).map .number) else .error (.malformed .unterminatedString) := rfl
  rw [opened]
  split
  · next closed =>
    obtain ⟨body, rfl⟩ := List.getLast?_eq_some_iff.mp closed
    rw [List.dropLast_concat, bind_eq_ok]
    constructor
    · rintro ⟨ws, read, h⟩
      obtain ⟨s, spelled, codes⟩ := stringWords_eq_ok.mp read
      exact ⟨s, ws, ⟨body, rfl, spelled⟩, codes, (Except.ok.inj h).symm⟩
    · rintro ⟨s, ws, ⟨inner, whole, spelled⟩, codes, rfl⟩
      have same : body = inner := List.append_cancel_right (List.cons.inj whole).2
      exact ⟨ws, stringWords_eq_ok.mpr ⟨s, same ▸ spelled, codes⟩, rfl⟩
  · next unclosed =>
    refine iff_of_false nofun ?_
    rintro ⟨s, ws, ⟨body, whole, -⟩, -⟩
    exact unclosed (by rw [(List.cons.inj whole).2, List.getLast?_concat])

/-! ## Data statements -/

/-- The names of the directive for data. -/
def dataNames : List Text := ["DAT".toList, ".DAT".toList]

/-- **A part of a data statement, with its values**: a string between blanks, which stands for the codes of its
characters, or a value. -/
inductive DataPart : Text → List Value → Prop
  | string {before item s behind : Text} {ws : List Word} (hb : Blank before) (he : Blank behind) (h : IsString item s)
    (codes : Codes s ws) : DataPart (before ++ (item ++ behind)) (ws.map .number)
  | value {t : Text} {v : Value} (quote : '"' ∉ t) (comma : ',' ∉ t) (semicolon : ';' ∉ t)
    (h : Value.parse t = .ok v) : DataPart t [v]

theorem trimmed_of_isString {item s : Text} (h : IsString item s) : Trimmed item := by
  obtain ⟨body, rfl, -⟩ := h
  exact Trimmed.append_append (t := ['"']) (u := ['"']) (by decide) (by decide) (by simp) (by simp) body

theorem parse_trim (t : Text) : Value.parse (trim t) = Value.parse t := by
  rw [Value.parse, trim_of_trimmed (trimmed_trim t)]
  rfl

namespace DataPart

theorem of_isString {item s : Text} {ws : List Word} (h : IsString item s) (codes : Codes s ws) :
    DataPart item (ws.map .number) := by
  have none : Blank [] := List.forall_mem_nil _
  have own := DataPart.string none none h codes
  rwa [List.nil_append, List.append_nil] at own

variable {t : Text} {vs : List Value}

theorem closed (h : DataPart t vs) : Quoting.Closed ',' t ∧ Quoting.Closed ';' t := by
  cases h with
  | string hb he h codes =>
    have both {sep : Char} (hs : isBlank sep = false) (apart : sep ≠ '"') := (Quoting.closed_of_blank hb hs).append
      ((h.closed apart).append (Quoting.closed_of_blank he hs))
    exact ⟨both (by decide) (by decide), both (by decide) (by decide)⟩
  | value quote comma semicolon h =>
    exact ⟨Quoting.closed_of_not_mem quote comma, Quoting.closed_of_not_mem quote semicolon⟩

/-- A part is read as its values, without the blanks around it. -/
theorem parseItem_eq (h : DataPart t vs) : parseItem (trim t) = .ok vs := by
  cases h with
  | @string before item s behind ws hb he h codes =>
    rw [trim_append_left hb, trim_append_right he, trim_of_trimmed (trimmed_of_isString h)]
    obtain ⟨body, rfl, spelled⟩ := h
    exact (parseItem_eq_ok rfl).mpr ⟨s, ws, ⟨body, rfl, spelled.weaken⟩, codes, rfl⟩
  | @value t v quote comma semicolon h =>
    have plain : (trim t).head? ≠ some '"' := fun first => quote (mem_of_mem_trim (List.mem_of_mem_head? first))
    rw [parseItem_of_value plain, parse_trim, h]
    rfl

theorem trim_ne_nil (h : DataPart t vs) : trim t ≠ [] := by
  intro empty
  have read := h.parseItem_eq
  rw [empty] at read
  cases read

theorem visible (h : DataPart t vs) : t.all isBlank = false := by
  rw [Bool.eq_false_iff]
  intro blank
  have gap : Blank t := List.all_eq_true.mp blank
  have trimmed := trim_append_left gap []
  rw [List.append_nil] at trimmed
  exact h.trim_ne_nil trimmed

end DataPart

theorem isWord_of_dataName {word : Text} (name : upperAscii word ∈ dataNames) : IsWord word := by
  have names : ∀ name ∈ dataNames, isName name := by decide
  exact isWord_of_isName (isName_upperAscii word ▸ names _ name)

namespace Statement

theorem parseData_trim (rest : Text) : parseData (trim rest) = parseData rest := by
  rw [parseData, parseData, splitItems_trim]

theorem parse_of_dataName {word gap : Text} (name : upperAscii word ∈ dataNames) (blank : Blank gap) (apart : gap ≠ [])
    (rest : Text) : parse (word ++ (gap ++ rest)) = parseData rest := by
  have isWord := isWord_of_dataName name
  have found : upper word = "DAT".toList ∨ upper word = ".DAT".toList := by
    rw [isWord.upper_eq]
    simpa [dataNames] using name
  obtain ⟨c, cs, rfl⟩ := List.exists_cons_of_ne_nil apart
  have broken := breakAtBlank_append_cons (fun d hd => (isWord.visible d hd).1) (blank c (List.mem_cons_self ..))
    (cs ++ rest)
  have items : parseData (trim (c :: cs ++ rest)) = parseData rest := by
    rw [trim_append_left blank, parseData_trim]
  rw [List.cons_append] at items ⊢
  simp only [parse, broken, found, if_true, items]

/-- A data statement is read if and only if each of its items is, and one of them is not empty. -/
theorem parseData_eq_ok {rest : Text} {st : Statement} :
    parseData rest = .ok st ↔ (∃ item ∈ splitItems rest, item ≠ []) ∧
      ∃ vss, List.Forall₂ (parseItem · = .ok ·) (splitItems rest) vss ∧ st = .data vss.flatten := by
  simp only [parseData]
  split
  · next empty =>
    refine iff_of_false (fun h => by cases h) ?_
    rintro ⟨⟨item, hitem, visible⟩, -⟩
    exact visible (List.isEmpty_iff.mp (List.all_eq_true.mp empty item hitem))
  · next some_item =>
    have visible : ∃ item ∈ splitItems rest, item ≠ [] := by simpa using some_item
    rw [and_iff_right visible, bind_eq_ok]
    constructor
    · rintro ⟨vss, read, h⟩
      exact ⟨vss, mapM_eq_ok_iff.mp read, (Except.ok.inj h).symm⟩
    · rintro ⟨vss, read, rfl⟩
      exact ⟨vss, mapM_eq_ok_iff.mpr read, rfl⟩

theorem forall_dataPart {parts : List Text} {vss : List (List Value)} (h : List.Forall₂ DataPart parts vss) :
    ∀ part ∈ parts, ∃ vs, DataPart part vs :=
  ((List.forall₂_and_left _ _).mp (h.imp fun _ vs hp => ⟨⟨vs, hp⟩, hp⟩)).1

/-- The parts of a data statement are its items. -/
theorem parseData_of_parts {parts : List Text} {vss : List (List Value)} (h : List.Forall₂ DataPart parts vss)
    (hne : parts ≠ []) : parseData ([','].intercalate parts) = .ok (.data vss.flatten) := by
  have each := forall_dataPart h
  obtain ⟨part, hpart⟩ := List.exists_mem_of_ne_nil parts hne
  obtain ⟨vs, own⟩ := each part hpart
  have items : splitItems ([','].intercalate parts) = parts.map trim :=
    splitItems_joined (fun part hp => (each part hp).elim fun _ hv => hv.closed.1) ⟨part, hpart, own.visible⟩
  rw [parseData_eq_ok, items]
  refine ⟨⟨trim part, List.mem_map_of_mem hpart, own.trim_ne_nil⟩, vss, ?_, rfl⟩
  exact List.forall₂_map_left_iff.mpr (h.imp fun _ _ hp => hp.parseItem_eq)

end Statement

/-! ## Data lines -/

section
variable {word gap : Text}

/-- A line of a word and more is a statement without labels. -/
theorem splitLine_of_isWord (hw : IsWord word) (blank : Blank gap) (apart : gap ≠ []) {rest comment : Text}
    (closed : Quoting.Closed ';' rest) (visible : rest.all isBlank = false) (hc : IsComment comment) :
    ∃ before, Blank before ∧ before ≠ [] ∧
      splitLine (word ++ (gap ++ (rest ++ comment))) = ([], word ++ (before ++ trim rest)) := by
  obtain ⟨before, behind, hb, he, whole⟩ := exists_gaps rest
  have seen : trim rest ≠ [] := by
    intro empty
    rw [empty, List.nil_append] at whole
    rw [whole, List.all_append, List.all_eq_true.mpr hb, List.all_eq_true.mpr he] at visible
    cases visible
  have front : Blank (gap ++ before) := List.forall_mem_append.mpr ⟨blank, hb⟩
  have frontNe : gap ++ before ≠ [] := by simp [apart]
  refine ⟨gap ++ before, front, frontNe, ?_⟩
  have own : Quoting.Closed ';' (word ++ (gap ++ rest)) :=
    (Quoting.closed_of_not_mem hw.plain.2.1 hw.plain.2.2).append
      ((Quoting.closed_of_blank blank (by decide)).append closed)
  have stripped : stripComment (word ++ (gap ++ (rest ++ comment))) = word ++ (gap ++ rest) := by
    have passed := stripComment_append own comment
    rw [stripComment_of_isComment hc] at passed
    simpa using passed
  have trimmed : trim (word ++ (gap ++ rest)) = word ++ ((gap ++ before) ++ trim rest) := by
    have cut := trim_append_right he (word ++ ((gap ++ before) ++ trim rest))
    rw [trim_of_trimmed (hw.trimmed.append_append (trimmed_trim rest) hw.ne_nil seen _)] at cut
    rw [← cut]
    conv_lhs => rw [whole]
    simp only [List.append_assoc]
  rw [splitLine, stripped, trimmed]
  apply splitLabels_of_takeLabel?
  obtain ⟨c, cs, hgap⟩ := List.exists_cons_of_ne_nil frontNe
  have broken := breakAtBlank_append_cons (fun d hd => (hw.visible d hd).1)
    (front c (hgap ▸ List.mem_cons_self ..)) (cs ++ trim rest)
  rw [hgap, List.cons_append]
  have last : word.getLast? ≠ some ':' := fun e => hw.plain.1 (List.mem_of_getLast? e)
  unfold takeLabel?
  split
  · next start =>
    obtain ⟨d, ds, rfl⟩ := List.exists_cons_of_ne_nil hw.ne_nil
    exact absurd ((List.cons.inj start).1 ▸ List.mem_cons_self ..) hw.plain.1
  · simp only [broken, last, if_false]

/-- **A data line lays out the values of its parts**, one word for each. -/
theorem addLine_of_parts (name : upperAscii word ∈ dataNames) (blank : Blank gap) (apart : gap ≠ [])
    {parts : List Text} {vss : List (List Value)} (h : List.Forall₂ DataPart parts vss) (hne : parts ≠ [])
    {comment : Text} (hc : IsComment comment) (l : Layout) (line : Nat) :
    l.addLine line (word ++ (gap ++ ([','].intercalate parts ++ comment))) =
      .ok (l.append (vss.flatten.map (·.cell line))) := by
  have each := Statement.forall_dataPart h
  obtain ⟨part, hpart⟩ := List.exists_mem_of_ne_nil parts hne
  obtain ⟨vs, own⟩ := each part hpart
  have closed : Quoting.Closed ';' ([','].intercalate parts) :=
    Quoting.closed_intercalate (by decide) fun part hp => (each part hp).elim fun _ hv => hv.closed.2
  have visible : ([','].intercalate parts).all isBlank = false := by
    obtain ⟨c, hc, shown⟩ := List.all_eq_false.mp own.visible
    exact List.all_eq_false.mpr ⟨c, mem_intercalate hpart hc, shown⟩
  obtain ⟨before, hb, hbne, split⟩ := splitLine_of_isWord (isWord_of_dataName name) blank apart closed visible hc
  have parsed : Statement.parse (word ++ (before ++ trim ([','].intercalate parts))) = .ok (.data vss.flatten) := by
    rw [Statement.parse_of_dataName name hb hbne, Statement.parseData_trim, Statement.parseData_of_parts h hne]
  have statement : (word ++ (before ++ trim ([','].intercalate parts))).isEmpty = false := by
    simp [(isWord_of_dataName name).ne_nil]
  rw [Layout.addLine, split]
  simp only [List.foldlM_nil, statement, parsed]
  rfl

end

/-! ## Writing strings -/

/-- A character as it is written in a string. -/
def writtenChar (c : Char) : Text :=
  if c = '"' then ['\\', '"'] else if c = '\\' then ['\\', '\\'] else if c = '\n' then ['\\', 'n'] else [c]

/-- A text as a string, on one line. -/
def quoted (s : Text) : Text := '"' :: (s.flatMap writtenChar ++ ['"'])

theorem spells_writtenChar {c : Char} (basic : c.toNat ≤ 0xffff) {body s : Text} (h : Spells StandsAlone body s) :
    Spells StandsAlone (writtenChar c ++ body) (c :: s) := by
  by_cases quote : c = '"'
  · subst quote
    exact .escaped (by decide) h
  by_cases backslash : c = '\\'
  · subst backslash
    exact .escaped (by decide) h
  by_cases lineEnd : c = '\n'
  · subst lineEnd
    exact .escaped (by decide) h
  · rw [writtenChar, if_neg quote, if_neg backslash, if_neg lineEnd]
    exact .plain ⟨quote, backslash⟩ basic h

theorem newline_not_mem_writtenChar (c : Char) : '\n' ∉ writtenChar c := by
  unfold writtenChar
  split
  · decide
  split
  · decide
  split
  · decide
  · next lineEnd => exact fun h => lineEnd (List.mem_singleton.mp h).symm

theorem isString_quoted {s : Text} (basic : ∀ c ∈ s, c.toNat ≤ 0xffff) : IsString (quoted s) s := by
  refine ⟨_, rfl, ?_⟩
  induction s with
  | nil => exact .nil
  | cons c cs ih =>
    rw [List.flatMap_cons]
    exact spells_writtenChar (basic c (List.mem_cons_self ..)) (ih fun d hd => basic d (List.mem_cons_of_mem _ hd))

theorem newline_not_mem_quoted (s : Text) : '\n' ∉ quoted s := by
  simp only [quoted, List.mem_cons, List.mem_append, List.mem_flatMap, List.not_mem_nil, or_false]
  rintro (h | ⟨c, -, h⟩ | h)
  · cases h
  · exact newline_not_mem_writtenChar c h
  · cases h

/-- Characters of the basic plane have codes that are words. -/
theorem exists_codes {s : Text} (basic : ∀ c ∈ s, c.toNat ≤ 0xffff) : ∃ ws, Codes s ws := by
  refine ⟨s.map fun c => UInt16.ofNat c.toNat, ?_⟩
  rw [Codes, List.map_map]
  refine List.map_congr_left fun c hc => UInt16.toNat_ofNat_of_lt' ?_
  exact Nat.lt_succ_of_le (basic c hc)

/-- A line with a text as its only data is assembled to the codes of the text. -/
theorem assemble_quoted {word gap : Text} (name : upperAscii word ∈ dataNames) (blank : Blank gap) (apart : gap ≠ [])
    (single : '\n' ∉ gap) {s : Text} (basic : ∀ c ∈ s, c.toNat ≤ 0xffff) {ws : List Word} (codes : Codes s ws)
    (fits : s.length ≤ Word.count) : assemble (word ++ (gap ++ quoted s)) = .ok ws := by
  have part : DataPart (quoted s) (ws.map .number) := .of_isString (isString_quoted basic) codes
  have line := addLine_of_parts name blank apart (.cons part .nil) (List.cons_ne_nil _ _)
    (by decide : IsComment []) {} 1
  have word_single : '\n' ∉ word := fun h => absurd ((isWord_of_dataName name).visible _ h).1 (by decide)
  have lines : splitLines (word ++ (gap ++ quoted s)) = [word ++ (gap ++ quoted s)] := by
    have newline : '\n' ∉ word ++ (gap ++ quoted s) := by simp [word_single, single, newline_not_mem_quoted]
    have one := splitOn_intercalate (List.cons_ne_nil _ []) (List.forall_mem_singleton.mpr newline)
    rwa [List.intercalate_singleton] at one
  have laid : Layout.addLines {} 1 (splitLines (word ++ (gap ++ quoted s))) =
      .ok (Layout.append {} (ws.map Cell.word)) := by
    rw [lines, Layout.addLines]
    simp only [List.intercalate_singleton, List.append_nil, List.flatten_cons, List.flatten_nil, List.map_map] at line
    rw [line]
    rfl
  have length : ws.length = s.length := by simpa using congrArg List.length codes
  have cells : (Layout.append {} (ws.map Cell.word)).cells.toList = ws.map Cell.word := Layout.toList_append ..
  have size : (Layout.append {} (ws.map Cell.word)).cells.size ≤ Word.count := by
    rw [← Array.length_toList, cells, List.length_map, length]
    exact fits
  rw [assemble_of_addLines laid size, cells, Layout.mapM_resolve_words]

/-! ## The strings of data statements -/

/-- **How an item that starts with a quote is read**: if and only if it is a text in quotes, as the codes of its
characters. It is a string just in case that it is read and does not go on behind one. -/
structure ReadsString (item : Text) : Prop where
  parse_iff (vs : List Value) : parseItem item = .ok vs ↔
    ∃ s ws, Encloses (· ≠ '\\') item s ∧ Codes s ws ∧ vs = ws.map .number
  string_iff : (∃ s, IsString item s) ↔ (∃ vs, parseItem item = .ok vs) ∧ ¬ GoesOn item
  codes (s : Text) (h : IsString item s) : ∃ ws, Codes s ws ∧ parseItem item = .ok (ws.map .number)

theorem Spells.basic {plain : Char → Prop} {body s : Text} (h : Spells plain body s) : ∀ c ∈ s, c.toNat ≤ 0xffff := by
  have escaped : ∀ pair ∈ escapes, pair.2.toNat ≤ 0xffff := by decide
  induction h with
  | nil => simp
  | plain _ basic _ ih => exact List.forall_mem_cons.mpr ⟨basic, ih⟩
  | escaped he _ ih => exact List.forall_mem_cons.mpr ⟨escaped _ he, ih⟩

theorem readsString {item : Text} (quote : item.head? = some '"') : ReadsString item := by
  have read (vs : List Value) : parseItem item = .ok vs ↔ _ := parseItem_eq_ok quote
  refine ⟨read, ?_, ?_⟩
  · have some_text : (∃ s, Encloses (· ≠ '\\') item s) ↔ ∃ vs, parseItem item = .ok vs := by
      constructor
      · rintro ⟨s, body, whole, spelled⟩
        obtain ⟨ws, codes⟩ := exists_codes spelled.basic
        exact ⟨_, (read _).mpr ⟨s, ws, ⟨body, whole, spelled⟩, codes, rfl⟩⟩
      · rintro ⟨vs, h⟩
        obtain ⟨s, ws, enclosed, -⟩ := (read vs).mp h
        exact ⟨s, enclosed⟩
    rw [← some_text, isString_iff]
  · rintro s ⟨body, whole, spelled⟩
    obtain ⟨ws, codes⟩ := exists_codes spelled.basic
    exact ⟨ws, codes, (read _).mpr ⟨s, ws, ⟨body, whole, spelled.weaken⟩, codes, rfl⟩⟩

/-- **The strings of data statements.** A data statement is read if and only if each of its items is and one of them is
not empty. An item that starts with a quote is read if and only if it ends with one and all between them is spelled
rightly, whatever quotes stand there; it is a string unless it goes on behind one. Nothing in a string splits it or
starts a comment, so a line of strings and values, with or without a comment, lays out just their words; and every text
of the basic plane can be written as a string. -/
theorem strings_of_data {word gap : Text} (name : upperAscii word ∈ dataNames) (blank : Blank gap) (apart : gap ≠ [])
    (single : '\n' ∉ gap) :
    (∀ rest st, Statement.parse (word ++ (gap ++ rest)) = .ok st ↔ (∃ item ∈ splitItems rest, item ≠ []) ∧
      ∃ vss, List.Forall₂ (parseItem · = .ok ·) (splitItems rest) vss ∧ st = .data vss.flatten) ∧
    (∀ item, item.head? = some '"' → ReadsString item) ∧
    (∀ parts vss comment, List.Forall₂ DataPart parts vss → parts ≠ [] → IsComment comment →
      ∀ (l : Layout) (line : Nat), l.addLine line (word ++ (gap ++ ([','].intercalate parts ++ comment))) =
        .ok (l.append (vss.flatten.map (·.cell line)))) ∧
    ∀ s, (∀ c ∈ s, c.toNat ≤ 0xffff) → IsString (quoted s) s ∧ '\n' ∉ quoted s ∧
      ∃ ws, Codes s ws ∧ (s.length ≤ Word.count → assemble (word ++ (gap ++ quoted s)) = .ok ws) := by
  refine ⟨fun rest st => ?_, fun item => readsString, ?_, ?_⟩
  · rw [Statement.parse_of_dataName name blank apart, Statement.parseData_eq_ok]
  · exact fun parts vss comment h hne hc => addLine_of_parts name blank apart h hne hc
  · intro s basic
    obtain ⟨ws, codes⟩ := exists_codes basic
    exact ⟨isString_quoted basic, newline_not_mem_quoted s, ws, codes, assemble_quoted name blank apart single basic codes⟩

/-- A string with a semicolon, a quote and a comma in it, a number behind it and a comment with a quote. -/
theorem strings_of_data_of_separators :
    Layout.addLine {} 1 "dat \"a;\\\",b\", 5; \"c".toList =
      .ok (Layout.append {} ([97, 59, 34, 44, 98, 5].map Cell.word)) := by
  have basic : ∀ c ∈ "a;\",b".toList, c.toNat ≤ 0xffff := by decide
  obtain ⟨-, -, lines, written⟩ :=
    strings_of_data (by decide : upperAscii "dat".toList ∈ dataNames) (by decide : Blank [' ']) (by decide) (by decide)
  have codes : Codes "a;\",b".toList [97, 59, 34, 44, 98] := rfl
  have string : DataPart (quoted "a;\",b".toList) ([97, 59, 34, 44, 98].map .number) :=
    .of_isString (written _ basic).1 codes
  have number : DataPart " 5".toList [.number 5] := .value (by decide) (by decide) (by decide) rfl
  exact lines _ _ "; \"c".toList (.cons string (.cons number .nil)) (List.cons_ne_nil _ _) (by decide) {} 1

/-- **Two strings without a comma between them are no error**: they are read as one text, the quotes in the middle of
which are characters like others. -/
theorem strings_without_comma :
    ¬ ∀ rest, ∀ item ∈ splitItems rest, item.head? = some '"' →
      ((∃ vs, parseItem item = .ok vs) ↔ ∃ s, IsString item s) := by
  intro rule
  have whole : splitItems "\"a\" \"b\"".toList = ["\"a\" \"b\"".toList] := by decide
  have read : parseItem "\"a\" \"b\"".toList = .ok ([97, 34, 32, 34, 98].map .number) := rfl
  obtain ⟨s, string⟩ := (rule _ _ (whole ▸ List.mem_singleton_self _) rfl).mp ⟨_, read⟩
  have first : IsString "\"a\"".toList "a".toList := ⟨['a'], rfl, .plain ⟨by decide, by decide⟩ (by decide) .nil⟩
  exact not_goesOn string ⟨_, " \"b\"".toList, _, first, by decide, rfl⟩

end Dcpu16
