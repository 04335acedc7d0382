import Dcpu16.Command.Files
import Dcpu16.Proofs.Except

/-!
# Ordinary files

Seen through its ordinary files a tree is a map from places to contents: what is written at a path is found at all paths
that lead to the same place, and no other file changes (`read_put`, `toOption_read_put`). Directories and special files
take no part in this, so it is asked of a path that an ordinary file stands there or can be made there (`Writable`).
-/

namespace Dcpu16.FileTree

/-- The contents of the ordinary file at a path. -/
def contents? (t : FileTree) (path : Text) : Option Bytes :=
  match t.target path with
  | .ok place => t.files.lookup place
  | .error _ => none

/-- **An ordinary file can be written at a path**: one stands at its place, or nothing does and the place is in a
directory, below none that is closed. -/
structure Writable (t : FileTree) (path : Text) (place : Place) : Prop where
  target : t.target path = .ok place
  free : (∃ contents, t.files.lookup place = some contents) ∨
    t.node? place = none ∧ (∃ above name, place = above ++ [name] ∧ t.node? above = some .directory) ∧
      ∀ p ∈ t.closed, ¬ p.1 <+: place

section
variable {t : FileTree} {path other : Text} {place : Place} {contents : Bytes}

/-- A place is written only by a path that does not ask for a directory. -/
theorem target_eq_ok_iff : t.target path = .ok place ↔ path.getLast? ≠ some '/' ∧ t.locate path = .ok place := by
  constructor
  · intro h
    refine ⟨?_, locate_of_target h⟩
    intro slash
    rw [target, if_pos slash] at h
    obtain ⟨base, -, h⟩ := bind_eq_ok.mp h
    obtain ⟨above, -, h⟩ := bind_eq_ok.mp h
    cases h
  · rintro ⟨named, located⟩
    rw [target, if_neg named, located]

theorem writable_of_contents (h : t.contents? path = some contents) :
    ∃ place, t.Writable path place ∧ t.files.lookup place = some contents := by
  unfold contents? at h
  split at h
  · next place target => exact ⟨place, ⟨target, .inl ⟨contents, h⟩⟩, h⟩
  · cases h

theorem node?_of_lookup (h : t.files.lookup place = some contents) : t.node? place = some (.file contents) := by
  simp only [node?, h]

theorem Writable.node? (h : t.Writable path place) :
    (∃ contents, t.node? place = some (.file contents)) ∨ t.node? place = none := by
  rcases h.free with ⟨contents, file⟩ | ⟨free, -⟩
  · exact .inl ⟨contents, node?_of_lookup file⟩
  · exact .inr free

theorem Writable.not_directory (h : t.Writable path place) : t.node? place ≠ some .directory := by
  rcases h.node? with ⟨contents, file⟩ | free
  · simp [file]
  · simp [free]

/-! ## Writing -/

theorem write_of_writable (h : t.Writable path place) : t.write path contents = .ok (t.put place contents) := by
  rw [write, h.target]
  rcases h.free with ⟨before, file⟩ | ⟨free, -, opened⟩
  · simp only [bind, Except.bind, node?_of_lookup file]
    rfl
  · have unclosed : t.closed.find? (·.1.isPrefixOf place) = none := by
      rw [List.find?_eq_none]
      intro p hp inside
      exact opened p hp (List.isPrefixOf_iff_prefix.mp inside)
    simp only [bind, Except.bind, free, unclosed]
    rfl

theorem stream?_of_writable (h : t.Writable path place) : t.stream? path = none := by
  rw [stream?, locate_of_target h.target]
  rcases h.node? with ⟨contents, file⟩ | free
  · simp [file]
  · simp [free]

/-! ## Reading -/

theorem read_of_contents (h : t.contents? path = some contents) : t.read path = .ok contents := by
  obtain ⟨place, writable, file⟩ := writable_of_contents h
  simp [read, locate_of_target writable.target, node?_of_lookup file, bind, Except.bind, pure, Except.pure]

/-- What is written at a path is read there. -/
theorem read_put (h : t.Writable path place) : (t.put place contents).read path = .ok contents := by
  have located : (t.put place contents).locate path = .ok place :=
    locate_put h.not_directory (locate_of_target h.target)
  simp [read, located, node?_put, bind, Except.bind, pure, Except.pure]

theorem contents?_put (h : t.Writable path place) : (t.put place contents).contents? path = some contents := by
  obtain ⟨named, located⟩ := target_eq_ok_iff.mp h.target
  have target : (t.put place contents).target path = .ok place :=
    target_eq_ok_iff.mpr ⟨named, locate_put h.not_directory located⟩
  rw [contents?, target]
  simp [lookup_put]

/-- A written file makes no directory, since its place is in one. -/
theorem places_put_iff (h : t.Writable path place) {q : Place} (ne : q ≠ place) :
    (∃ p ∈ (t.put place contents).places, q <+: p) ↔ ∃ p ∈ t.places, q <+: p := by
  have mem (p : Place) (hp : p ∈ (t.put place contents).places) : p ∈ t.places ∨ p = place := by
    simp only [places, put, List.cons_append, List.mem_cons, List.mem_append, List.mem_map, List.map_cons,
      List.mem_filter] at hp ⊢
    grind
  constructor
  · rintro ⟨p, hp, below⟩
    rcases mem p hp with known | rfl
    · exact ⟨p, known, below⟩
    · rcases h.free with ⟨before, file⟩ | ⟨-, ⟨above, name, rfl, directory⟩, -⟩
      · obtain ⟨f, hf, rfl⟩ : ∃ f ∈ t.files, f.1 = p := by
          obtain ⟨_, _, split, -⟩ := List.lookup_eq_some_iff.mp file
          exact ⟨(p, before), by rw [split]; simp, rfl⟩
        exact ⟨f.1, by simp only [places, List.mem_append, List.mem_map]; exact .inr ⟨f, hf, rfl⟩, below⟩
      · rcases List.prefix_concat_iff.mp below with same | inside
        · exact absurd same ne
        · obtain ⟨-, -, p, hp, further⟩ := node?_eq_directory_iff.mp directory
          exact ⟨p, hp, inside.trans further⟩
  · rintro ⟨p, hp, below⟩
    exact ⟨p, mem_places_put hp, below⟩

/-- Writing a file changes what stands at its place and nothing else. -/
theorem node?_put_of_ne (h : t.Writable path place) {q : Place} (ne : q ≠ place) :
    (t.put place contents).node? q = t.node? q := by
  have named : (t.put place contents).places.any q.isPrefixOf = t.places.any q.isPrefixOf := by
    rw [Bool.eq_iff_iff, List.any_eq_true, List.any_eq_true]
    simpa only [List.isPrefixOf_iff_prefix] using places_put_iff h ne
  rw [node?, node?, named, lookup_put, if_neg ne]
  rfl

/-- A way leads to the same place behind a write, or to none behind it as before. -/
theorem toOption_follow_put (h : t.Writable path place) (base : Place) (segments : List Text) :
    ((t.put place contents).follow base segments).toOption = (t.follow base segments).toOption := by
  induction segments generalizing base with
  | nil => rfl
  | cons segment rest ih =>
    by_cases same : base = place
    · -- no way goes on from a file, and none from where nothing stands
      subst same
      rcases h.node? with ⟨before, file⟩ | free
      · simp [follow, node?_put, file, Except.toOption]
      · simp [follow, node?_put, free, Except.toOption]
    · have stays (p : Place) : (t.put place contents).resolve p = t.resolve p := rfl
      rw [follow, follow, node?_put_of_ne h same]
      cases t.node? base with
      | none => rfl
      | some n =>
        cases n with
        | file _ | special _ => rfl
        | directory =>
          simp only [stays]
          split
          · exact ih _
          · split
            · exact ih _
            · split
              · rfl
              · exact ih _

/-- Elsewhere a read finds what it found before the write. -/
theorem toOption_read_put (h : t.Writable path place) (elsewhere : t.locate other ≠ .ok place) :
    ((t.put place contents).read other).toOption = (t.read other).toOption := by
  have start : (t.put place contents).start other = t.start other := rfl
  have located : ((t.put place contents).locate other).toOption = (t.locate other).toOption := by
    rw [locate, locate, start]
    cases t.start other with
    | error e => rfl
    | ok base => exact toOption_follow_put h base _
  cases before : t.locate other with
  | error e =>
    rw [before] at located
    cases behind : (t.put place contents).locate other with
    | error e' => simp [read, before, behind, bind, Except.bind, Except.toOption]
    | ok q =>
      rw [behind] at located
      cases located
  | ok q =>
    rw [before] at located
    have behind := eq_ok_of_toOption located
    have ne : q ≠ place := fun same => elsewhere (same ▸ before)
    simp only [read, before, behind, bind, Except.bind, node?_put_of_ne h ne]

end

end Dcpu16.FileTree
