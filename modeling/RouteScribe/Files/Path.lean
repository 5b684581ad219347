import RouteScribe.Text.Fields

/-!
# File paths

A path is a list of names below the working directory or below the root of the file system.  Reading
a path drops empty names and the name `.`, and keeps `..`, which only means something once the path
is resolved.  Paths are ordered name by name, each name by its code points.
-/

namespace RouteScribe.Files

/-- A path as it is written. -/
structure Path where
  /-- Whether the names start at the root of the file system. -/
  rooted : Bool
  names : List String
  deriving DecidableEq, Repr, Inhabited

namespace Path

/-- Reads a path: repeated slashes, names `.` and a slash at the end do not count. -/
def ofString (s : String) : Path :=
  { rooted := s.toList.head? = some '/'
    names := (Text.fieldsOf '/' s).filter fun n => n != "" && n != "." }

/-- The working directory itself. -/
def here : Path := ⟨false, []⟩

/-- The path below the root of the file system with the given names. -/
def absolute (names : List String) : Path := ⟨true, names⟩

/-- The text of a path; the empty relative path is written as `.`. -/
def text (p : Path) : String :=
  let body := "/".intercalate p.names
  if p.rooted then "/" ++ body else if p.names.isEmpty then "." else body

/-- The names that decide the order of paths: a rooted path starts with a slash of its own. -/
def key (p : Path) : List String :=
  if p.rooted then "/" :: p.names else p.names

/-- The path of `names` below `p`. -/
def below (p : Path) (names : List String) : Path :=
  { p with names := p.names ++ names }

/-- The path without its last name. -/
def parent (p : Path) : Path :=
  { p with names := p.names.dropLast }

/-- The last name, or nothing. -/
def lastName (p : Path) : String :=
  p.names.getLast?.getD ""

/-- Cuts a name at its last point.  A point at the start or at the end of the name does not count,
so such a name has no suffix. -/
def splitName (name : String) : String × String :=
  let cs := name.toList
  let tail := cs.reverse.takeWhile (· != '.')
  let stem := (cs.reverse.drop (tail.length + 1)).reverse
  if tail.length = cs.length ∨ tail = [] ∨ stem = [] then (name, "")
  else (String.ofList stem, String.ofList ('.' :: tail.reverse))

/-- The last name without its suffix. -/
def stem (p : Path) : String := (splitName p.lastName).1

/-- The suffix of the last name, with its point. -/
def suffix (p : Path) : String := (splitName p.lastName).2

/-- Follows names from a place, given from the root down: `..` goes one place up, and stays at the
root. -/
def follow (place : List String) (names : List String) : List String :=
  names.foldl (fun at' n => if n = ".." then at'.dropLast else at' ++ [n]) place

/-- The place that the path denotes, as the names from the root down, seen from the working
directory `cwd`. -/
def resolve (cwd : List String) (p : Path) : List String :=
  follow (if p.rooted then [] else cwd) p.names

/-- The names that lead from the place `root` down to `place`, when it lies there. -/
def relativeTo? (root place : List String) : Option (List String) :=
  if root.isPrefixOf place then some (place.drop root.length) else none

/-- Is the first list of names before the second, or equal to it? -/
def leNames (a b : List String) : Bool :=
  match a, b with
  | [], _ => true
  | _ :: _, [] => false
  | x :: xs, y :: ys => x < y || (x = y && leNames xs ys)

/-- Paths in increasing order, each once. -/
def sortUnique (ps : List Path) : List Path :=
  (ps.mergeSort fun p q => leNames p.key q.key).eraseReps

end Path

end RouteScribe.Files
