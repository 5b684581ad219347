import RouteScribe.Files.Braces
import RouteScribe.Files.Ignore
import RouteScribe.Files.Tree

/-!
# Finding files by patterns

A pattern is cut into the folder to search, which holds no wildcard, and the part below it.  The
folder is searched from the top, without entering folders that the ignore rules select; a file is
found when the part below fits it and no ignore rule does.  The files found by all patterns are
listed once each, in the order of their paths.

What a line fits is left to the compiler of ignore lines, which may refuse a line; then nothing is found.
-/

namespace RouteScribe.Files

/-- Ignore lines that always apply: declaration files, installed packages, and names that start
with a point. -/
def defaultIgnores : List String := ["**/*.d.ts", "**/node_modules/", ".*"]

/-- The pattern that is searched when nothing else is asked for. -/
def defaultEntry : String := "src/**/*.ts"

/-- Does the name hold a wildcard? -/
def hasWildcard (name : String) : Bool :=
  name.toList.any fun c => c == '*' || c == '?' || c == '['

/-- The folder to search, and the pattern below it; the latter is empty when the pattern names one
file.  A folder without names is the working directory, or the root for a rooted pattern. -/
def splitBase (pattern : String) : Path × String :=
  let p := Path.ofString pattern
  let base := p.names.takeWhile fun n => !hasWildcard n
  (⟨p.rooted, base⟩, "/".intercalate (p.names.drop base.length))

/-- What a search selects and what it leaves out. -/
structure Selection where
  wanted : IgnoreRules
  ignored : IgnoreRules

namespace Selection

/-- The text of names below the folder that is searched. -/
def relativeText (names : List String) : String := "/".intercalate names

/-- Is a file at the given names below the searched folder selected? -/
def takes (s : Selection) (names : List String) : Bool :=
  s.wanted.selects (relativeText names) && !s.ignored.selects (relativeText names)

/-- Is a folder at the given names below the searched folder entered? -/
def enters (s : Selection) (names : List String) : Bool :=
  !s.ignored.selects (relativeText names ++ "/")

end Selection

mutual

/-- The selected files at or below an entry, by their names below the searched folder. -/
def Entry.search (s : Selection) (at' : List String) : Entry → List (List String)
  | .file _ => if s.takes at' then [at'] else []
  | .folder entries => if s.enters at' then searchEntries s at' entries else []

/-- The selected files at or below the entries of a folder. -/
def searchEntries (s : Selection) (above : List String) : List (String × Entry) → List (List String)
  | [] => []
  | (name, e) :: rest => e.search s (above ++ [name]) ++ searchEntries s above rest

end

/-- The files that an expanded pattern finds, as paths below its base. -/
def candidates (compile : IgnoreCompiler) (w : Workspace) (ignored : IgnoreRules) (pattern : String) :
    Except BadLine (List Path) :=
  let (base, rest) := splitBase pattern
  if rest = "" then
    .ok (if w.isFile base && !ignored.selects base.lastName then [base] else [])
  else
    -- A leading slash keeps the pattern in the searched folder, as in a shell.
    (compile ["/" ++ rest]).map fun wanted =>
      match w.entry? base with
      | some (.folder entries) => (searchEntries ⟨wanted, ignored⟩ [] entries).map base.below
      | _ => []

/-- How found files are named. -/
inductive Naming where
  /-- As the pattern leads to them. -/
  | asFound
  /-- By their place below the root of the file system. -/
  | absolute
  deriving DecidableEq, Repr

/-- How a file is named that a path leads to. -/
def Naming.apply (w : Workspace) : Naming → Path → Path
  | .asFound, p => p
  | .absolute, p => Path.absolute (p.resolve w.cwd)

/-- The files that any of the patterns finds, each once, in the order of their paths. -/
def discover (compile : IgnoreCompiler) (w : Workspace) (naming : Naming)
    (ignore patterns : List String) : Except BadLine (List Path) := do
  let ignored ← compile (defaultIgnores ++ ignore)
  let found ← (patterns.flatMap expandBraces).mapM (candidates compile w ignored)
  return Path.sortUnique (found.flatten.map (naming.apply w))

end RouteScribe.Files
