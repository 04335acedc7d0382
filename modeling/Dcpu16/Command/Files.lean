import Dcpu16.Command.Path

/-!
# Files

A tree of files as the command line sees it: reading and writing whole files, and why that fails.
Directories are neither made nor removed. What is written to a path is read back there, special files apart
(`read_write`).
-/

namespace Dcpu16

/-- The contents of a file. -/
abbrev Bytes := List UInt8

/-- Why a file cannot be read or written. -/
inductive FileError
  | notFound | noDevice | notPermitted | notDirectory | isDirectory | noSpace | nameTooLong
  | other (reason : String)
  deriving DecidableEq, Repr, Inhabited

/-- How a file error is reported. -/
def FileError.message : FileError → String
  | notFound => "No such file or directory (os error 2)"
  | noDevice => "No such device or address (os error 6)"
  | notPermitted => "Permission denied (os error 13)"
  | notDirectory => "Not a directory (os error 20)"
  | isDirectory => "Is a directory (os error 21)"
  | noSpace => "No space left on device (os error 28)"
  | nameTooLong => "File name too long (os error 36)"
  | other reason => reason

/-- A place in a tree: the segments that lead to it from the root. -/
abbrev Place := List Text

/-- The place at a path from the root. -/
def Place.ofPath (path : String) : Place := (Path.segments path.toList).filter (!Path.isIdle ·)

/-- A stream that a program writes to. -/
inductive Stream
  | output | errors
  deriving DecidableEq, Repr

/-- A file that keeps nothing. -/
inductive SpecialFile
  /-- Takes whatever is written, and reads as empty. -/
  | null
  /-- Has no space for a single byte, and reads as empty. -/
  | full
  /-- Passes on what is written, and reads as empty. -/
  | stream (s : Stream)
  /-- A terminal where there is none. -/
  | terminal
  deriving DecidableEq, Repr

/-- What stands at a place. -/
inductive Node
  | file (contents : Bytes)
  | special (kind : SpecialFile)
  | directory
  deriving DecidableEq, Repr

/-- Files and directories, and the directory that paths start from. -/
structure FileTree where
  files : List (Place × Bytes) := []
  specials : List (Place × SpecialFile) := []
  /-- Directories that are there without a file in them. -/
  directories : List Place := []
  /-- Directories below which no file can be made, and the reason. -/
  closed : List (Place × FileError) := []
  /-- Places that stand for others. -/
  links : List (Place × Place) := []
  /-- The working directory. -/
  here : Place := []
  deriving Inhabited

namespace FileTree

/-- The most bytes that the name of a file or directory has. -/
def maxNameSize : Nat := 255

/-- The most bytes that a path has. -/
def maxPathSize : Nat := 4095

/-- The places that a tree names. All that lies above them are directories. -/
def places (t : FileTree) : List Place :=
  t.here :: t.directories ++ t.closed.map (·.1) ++ t.specials.map (·.1) ++ t.files.map (·.1)

/-- What stands at a place. -/
def node? (t : FileTree) (place : Place) : Option Node :=
  match t.files.lookup place, t.specials.lookup place with
  | some contents, _ => some (.file contents)
  | none, some kind => some (.special kind)
  | none, none => if t.places.any place.isPrefixOf then some .directory else none

/-- The place that a place stands for. -/
def resolve (t : FileTree) (place : Place) : Place := (t.links.lookup place).getD place

/-- Follows segments from a place. Each segment needs a directory to start from; above the root is the root. -/
def follow (t : FileTree) (place : Place) : List Text → Except FileError Place
  | [] => .ok place
  | segment :: rest =>
    match t.node? place with
    | none => .error .notFound
    | some .directory =>
      if Path.isIdle segment then t.follow place rest
      else if segment = ['.', '.'] then t.follow place.dropLast rest
      else if maxNameSize < utf8Size segment then .error .nameTooLong
      else t.follow (t.resolve (place ++ [segment])) rest
    | some _ => .error .notDirectory

/-- The directory that a path starts from: the root behind a slash, else the working directory. -/
def start (t : FileTree) (path : Text) : Except FileError Place :=
  if path.isEmpty then .error .notFound
  else if maxPathSize < utf8Size path then .error .nameTooLong
  else .ok (if path.head? = some '/' then [] else t.here)

/-- The place at a path. -/
def locate (t : FileTree) (path : Text) : Except FileError Place := do t.follow (← t.start path) (Path.segments path)

/-- The contents of the file at a path. -/
def read (t : FileTree) (path : Text) : Except FileError Bytes := do
  match t.node? (← t.locate path) with
  | some (.file contents) => return contents
  | some (.special .terminal) => throw .noDevice
  | some (.special _) => return []
  | some .directory => throw .isDirectory
  | none => throw .notFound

/-- The tree with other contents at a place. -/
def put (t : FileTree) (place : Place) (contents : Bytes) : FileTree :=
  { t with files := (place, contents) :: t.files.filter (·.1 ≠ place) }

/-- The place that is written at a path. A slash at the end asks for a directory, whatever the name in front of
it. -/
def target (t : FileTree) (path : Text) : Except FileError Place :=
  if path.getLast? = some '/' then do
    let above := ((Path.segments path).reverse.dropWhile List.isEmpty).tail.reverse
    let _ ← t.follow (← t.start path) (above ++ [[]])
    throw .isDirectory
  else t.locate path

/-- Writes the file at a path, which may be new but must lie in a directory. -/
def write (t : FileTree) (path : Text) (contents : Bytes) : Except FileError FileTree := do
  let place ← t.target path
  match t.node? place with
  | some (.file _) => return t.put place contents
  | some .directory => throw .isDirectory
  | some (.special .null) | some (.special (.stream _)) => return t
  | some (.special .full) => if contents.isEmpty then return t else throw .noSpace
  | some (.special .terminal) => throw .noDevice
  | none =>
    match t.closed.find? (·.1.isPrefixOf place) with
    | some (_, reason) => throw reason
    | none => return t.put place contents

/-- The stream that is written at a path. -/
def stream? (t : FileTree) (path : Text) : Option Stream :=
  match t.locate path with
  | .error _ => none
  | .ok place =>
    match t.node? place with
    | some (.special (.stream s)) => some s
    | _ => none

/-- The tree of a usual system with an empty working directory. Nothing stands on the standard input. -/
def usual : FileTree where
  here := .ofPath "tmp/saturn"
  specials :=
    [("proc/self/fd/0", .null), ("proc/self/fd/1", .stream .output), ("proc/self/fd/2", .stream .errors),
      ("dev/null", .null), ("dev/zero", .null), ("dev/random", .null), ("dev/urandom", .null), ("dev/full", .full),
      ("dev/tty", .terminal)].map fun (path, kind) => (.ofPath path, kind)
  directories :=
    ["boot", "dev/pts", "dev/shm", "etc", "home", "media", "mnt", "opt", "root", "run", "srv", "sys/block", "sys/bus",
      "sys/class", "sys/dev", "sys/devices", "sys/fs", "sys/kernel", "sys/module", "usr/bin", "usr/include", "usr/lib",
      "usr/lib64", "usr/local", "usr/sbin", "usr/share", "usr/src", "var/cache", "var/lib", "var/log",
      "var/tmp"].map .ofPath
  closed := [("proc", .notFound), ("sys", .notPermitted)].map fun (path, reason) => (.ofPath path, reason)
  links :=
    [("bin", "usr/bin"), ("lib", "usr/lib"), ("lib64", "usr/lib64"), ("sbin", "usr/sbin"), ("var/run", "run"),
      ("dev/fd", "proc/self/fd"), ("dev/stdin", "proc/self/fd/0"), ("dev/stdout", "proc/self/fd/1"),
      ("dev/stderr", "proc/self/fd/2"), ("proc/self/cwd", "tmp/saturn"),
      ("proc/self/root", "")].map fun (path, target) => (.ofPath path, .ofPath target)

/-- Adds a file in the working directory. -/
def add (t : FileTree) (name : Text) (contents : Bytes) : FileTree :=
  t.put (t.here ++ (Path.segments name).filter (!Path.isIdle ·)) contents

/-! ## Reading what was written -/

theorem lookup_put (t : FileTree) (place other : Place) (contents : Bytes) :
    (t.put place contents).files.lookup other =
      if other = place then some contents else t.files.lookup other := by
  by_cases h : other = place
  · simp [put, h]
  · have rest : (t.files.filter (·.1 ≠ place)).lookup other = t.files.lookup other := by
      induction t.files with
      | nil => rfl
      | cons f fs ih =>
        obtain ⟨p, c⟩ := f
        by_cases hp : p = place
        · have hne : (other == p) = false := by simp [hp, h]
          rw [List.filter_cons_of_neg (by simpa using hp), ih, List.lookup_cons, hne]
        · rw [List.filter_cons_of_pos (by simpa using hp), List.lookup_cons, List.lookup_cons, ih]
    have hne : (other == place) = false := by simp [h]
    rw [if_neg h, ← rest, put, List.lookup_cons, hne]

theorem node?_put (t : FileTree) (place : Place) (contents : Bytes) :
    (t.put place contents).node? place = some (.file contents) := by
  simp [node?, lookup_put]

/-- A directory is a place at or above one that the tree names, and no file. -/
theorem node?_eq_directory_iff {t : FileTree} {place : Place} :
    t.node? place = some .directory ↔
      t.files.lookup place = none ∧ t.specials.lookup place = none ∧ ∃ p ∈ t.places, place <+: p := by
  cases hf : t.files.lookup place <;> cases hs : t.specials.lookup place <;> simp [node?, hf, hs]

theorem mem_places_put {t : FileTree} {place other : Place} {contents : Bytes} (h : other ∈ t.places) :
    other ∈ (t.put place contents).places := by
  simp only [places, put, List.cons_append, List.mem_cons, List.mem_append, List.mem_map, List.map_cons,
    List.mem_filter] at h ⊢
  grind

/-- What is written where no directory stands leaves all directories as they are. -/
theorem node?_put_of_directory {t : FileTree} {place other : Place} {contents : Bytes}
    (hp : t.node? place ≠ some .directory) (ho : t.node? other = some .directory) :
    (t.put place contents).node? other = some .directory := by
  have hne : other ≠ place := fun h => hp (h ▸ ho)
  obtain ⟨hf, hs, p, hmem, hpre⟩ := node?_eq_directory_iff.1 ho
  exact node?_eq_directory_iff.2 ⟨by rw [lookup_put, if_neg hne, hf], hs, p, mem_places_put hmem, hpre⟩

/-- A way through directories leads to the same place after such a write. -/
theorem follow_put {t : FileTree} {place base reached : Place} {contents : Bytes} {segments : List Text}
    (hp : t.node? place ≠ some .directory) (h : t.follow base segments = .ok reached) :
    (t.put place contents).follow base segments = .ok reached := by
  induction segments generalizing base with
  | nil => exact h
  | cons segment rest ih =>
    cases hd : t.node? base with
    | none => simp [follow, hd] at h
    | some n =>
      cases n with
      | file c => simp [follow, hd] at h
      | special k => simp [follow, hd] at h
      | directory =>
        have hl : ∀ p, (t.put place contents).resolve p = t.resolve p := fun _ => rfl
        simp only [follow, hd, node?_put_of_directory hp hd, hl] at h ⊢
        grind

theorem locate_put {t : FileTree} {path : Text} {place reached : Place} {contents : Bytes}
    (hp : t.node? place ≠ some .directory) (h : t.locate path = .ok reached) :
    (t.put place contents).locate path = .ok reached := by
  have hs : (t.put place contents).start path = t.start path := rfl
  cases hstart : t.start path with
  | error e => simp [locate, hstart, bind, Except.bind] at h
  | ok s =>
    simp only [locate, hs, hstart, bind, Except.bind] at h ⊢
    exact follow_put hp h

theorem locate_of_target {t : FileTree} {path : Text} {place : Place} (h : t.target path = .ok place) :
    t.locate path = .ok place := by
  rw [target] at h
  split at h
  · cases hs : t.start path with
    | error e => simp [hs, bind, Except.bind] at h
    | ok s => simp only [hs, bind, Except.bind] at h; split at h <;> cases h
  · exact h

/-- What is written to a path is read there, in a tree without special files. -/
theorem read_write {t t' : FileTree} {path : Text} {contents : Bytes} (hs : t.specials = [])
    (h : t.write path contents = .ok t') : t'.read path = .ok contents := by
  cases ht : t.target path with
  | error e => simp [write, ht, bind, Except.bind] at h
  | ok place =>
    simp only [write, ht, bind, Except.bind] at h
    have hput : t.node? place ≠ some .directory ∧ t' = t.put place contents := by
      cases hn : t.node? place with
      | none =>
        simp only [hn] at h
        split at h <;> cases h
        simp
      | some n =>
        cases n with
        | file c => rw [hn] at h; cases h; simp
        | directory => rw [hn] at h; cases h
        | special k => simp only [node?, hs, List.lookup_nil] at hn; split at hn <;> simp_all
    simp [read, hput.2, locate_put hput.1 (locate_of_target ht), node?_put, bind, Except.bind, pure, Except.pure]

end FileTree

end Dcpu16
