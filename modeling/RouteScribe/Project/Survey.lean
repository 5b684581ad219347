import RouteScribe.Document.Assembly
import RouteScribe.Files.Discovery
import RouteScribe.Project.Tools
import RouteScribe.Route.Convention
import RouteScribe.Route.Registration

/-!
# Surveys of a project

A survey reads the files that the entry patterns select, in the order of their paths, and collects
the routes that they register.  A file that cannot be read, or that is not well formed, contributes
nothing and is reported as skipped; it never ends the survey.  A fault in the analysis of a file
does end it, and the files that were skipped up to then are still reported.
-/

namespace RouteScribe.Project

open Files (Obstacle Path Workspace)
open Route (Convention Policy Record)

/-- Why a file contributes nothing. -/
inductive SkipReason where
  | unreadable (obstacle : Obstacle)
  | malformed
  deriving DecidableEq, Repr

/-- A file that contributes nothing, as it was named, and why. -/
structure Skipped where
  file : Path
  reason : SkipReason
  deriving DecidableEq, Repr

/-- Why a project gives no result. -/
inductive Fault where
  /-- No file fits any of the patterns. -/
  | noFiles (patterns : List String)
  /-- Both folder conventions were asked for. -/
  | conflict
  /-- A pattern or an ignore line was refused. -/
  | refused (reason : Files.BadLine)
  /-- The analysis of a file failed. -/
  | analysis (failure : Typing.Failure)
  /-- A status has too many digits to be written. -/
  | longStatus
  /-- A file could not be written. -/
  | blocked (obstacle : Obstacle)
  /-- A line could not be printed. -/
  | unprintable

/-- What a fault of the request itself tells the user; other faults tell nothing. -/
def Fault.message? : Fault → Option String
  | .noFiles patterns => some ("No files matched pattern: " ++ ", ".intercalate patterns)
  | .conflict => some (Route.ConventionConflict.message {})
  | .refused _ => none
  | .analysis _ => none
  | .longStatus => none
  | .blocked _ => none
  | .unprintable => none

/-- The outcome of reading some files: what was skipped, and the records or the fault that ended
it. -/
structure Survey where
  skipped : List Skipped
  records : Except Fault (List Record)

namespace Survey

/-- A survey of no files. -/
def empty : Survey := ⟨[], .ok []⟩

/-- A survey that ends at once. -/
def fault (f : Fault) : Survey := ⟨[], .error f⟩

/-- One survey after another: the second takes place only when the first came to its end. -/
def andThen (first second : Survey) : Survey :=
  match first.records with
  | .error _ => first
  | .ok records =>
    { skipped := first.skipped ++ second.skipped
      records := second.records.map (records ++ ·) }

end Survey

/-- The suffixes of files that may hold markup. -/
def markupSuffixes : List String := [".tsx", ".jsx"]

/-- How the text of a file is to be read.  Case does not count in the suffix; no letter outside ASCII
has one of the letters of these suffixes as its lower case. -/
def dialectOf (file : Path) : Source.Dialect :=
  if markupSuffixes.contains file.suffix.toLower then .markup else .plain

section

variable (tools : Tools) (w : Workspace)

/-- The tree of a file. -/
def programOf (file : Path) : Except SkipReason Source.Node :=
  match w.readText file with
  | .error o => .error (.unreadable o)
  | .ok text =>
    match tools.parse (dialectOf file) text with
    | some program => .ok program
    | none => .error .malformed

/-- The survey of one file: its records, under what its place contributes. -/
def surveyFile (convention : Option Convention) (policy : Policy) (file : Path) : Survey :=
  match programOf tools w file with
  | .error reason => ⟨[⟨file, reason⟩], .ok []⟩
  | .ok program =>
    match Route.analyze policy program with
    | .error failure => .fault (.analysis failure)
    | .ok records => ⟨[], .ok (Route.compose w convention file records)⟩

/-- The survey of files, one after the other. -/
def surveyFiles (convention : Option Convention) (policy : Policy) : List Path → Survey
  | [] => .empty
  | file :: rest =>
    (surveyFile tools w convention policy file).andThen (surveyFiles convention policy rest)

end

/-- What is asked of a project: the entry patterns, the folder convention, and which calls count as
registrations. -/
structure Request where
  entries : List String
  convention : Option Convention
  policy : Policy

/-- The patterns that are searched: those of the convention when none are given. -/
def Request.patterns (r : Request) : List String :=
  if r.entries.isEmpty then Route.defaultEntries Files.defaultEntry r.convention else r.entries

/-- The survey of all files that the patterns of a request select. -/
def survey (tools : Tools) (w : Workspace) (r : Request) : Survey :=
  match Files.discover tools.compile w .absolute [] r.patterns with
  | .error reason => .fault (.refused reason)
  | .ok [] => .fault (.noFiles r.patterns)
  | .ok files => surveyFiles tools w r.convention r.policy files

end RouteScribe.Project
