import Dcpu16.Text

/-!
# Paths

The parts of a path that the command line looks at: its segments, and the extension of the file it names.
-/

namespace Dcpu16.Path

/-- The parts of a path between slashes. -/
def segments (path : Text) : List Text := splitOn '/' path

/-- Whether a segment stays in its directory. -/
def isIdle (segment : Text) : Bool := segment.isEmpty || segment = ['.']

/-- The segments up to the one that names a file, the last one first; none if the path names no file. -/
def fileSegments? (path : Text) : Option (Text × List Text) :=
  match (segments path).reverse.dropWhile isIdle with
  | [] => none
  | name :: before => if name = ['.', '.'] then none else some (name, before)

/-- The stem and the extension of a file name. A point in front does not start an extension. -/
def splitName (name : Text) : Text × Option Text :=
  let extension := (name.reverse.takeWhile (· ≠ '.')).reverse
  match (name.reverse.dropWhile (· ≠ '.')).reverse.dropLast with
  | [] => (name, none)
  | stem => (stem, some extension)

/-- The extension of the file that a path names. -/
def extension? (path : Text) : Option Text := (fileSegments? path).bind fun (name, _) => (splitName name).2

/-- The path with another extension for the file it names. The old extension is cut off first; a path that then
names no file stays so. -/
def withExtension (path extension : Text) : Text :=
  let cut := path.take (path.length - ((extension? path).getD []).length)
  match fileSegments? cut with
  | none => cut
  | some (name, before) => ['/'].intercalate (((splitName name).1 ++ '.' :: extension) :: before).reverse

/-- A path without an extension that ends in the name of a file gets one behind a point. -/
example : withExtension "a/b".toList "bin".toList = "a/b.bin".toList := by cbv

/-- What is left of `..s` without its extension is the directory above. -/
example : withExtension "..s".toList "bin".toList = "..".toList := by cbv

end Dcpu16.Path
