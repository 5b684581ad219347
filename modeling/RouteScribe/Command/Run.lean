import RouteScribe.Command.Arguments
import RouteScribe.Project.Survey

/-!
# Running a command

A command is a function from a workspace and its arguments to what is printed, the exit code, and
the workspace afterwards.  Only the command that generates a document changes the workspace, and it
writes the document last.  A run that does not succeed changes no file, unless it fails while the document
is written or after that, because its text cannot be encoded or the last line cannot be printed.
-/

namespace RouteScribe.Command

open Files (Obstacle Path Workspace)
open Project (Fault Request Skipped Tools)
open Route (Convention Policy Record)

/-! ## What is printed -/

/-- What a finished run leaves on the console. -/
structure Console where
  exitCode : Nat
  out : String
  err : String
  deriving DecidableEq, Repr

/-- May the character stand among the parameters of a styling sequence? -/
def isStyleParameter (c : Char) : Bool :=
  c == ';' || c == '?' || c.isDigit

/-- Text without the sequences that set colours and the like on a terminal: the escape character, an
opening bracket, parameters and a letter. -/
def withoutStyles (cs : List Char) : List Char :=
  match cs with
  | [] => []
  | '\x1b' :: '[' :: rest =>
    match _h : rest.dropWhile isStyleParameter with
    | c :: after =>
      if c.isAlpha then withoutStyles after else '\x1b' :: withoutStyles ('[' :: rest)
    | [] => '\x1b' :: withoutStyles ('[' :: rest)
  | c :: rest => c :: withoutStyles rest
termination_by cs.length
decreasing_by
  all_goals simp_wf
  · have h₁ := congrArg List.length _h
    have h₂ := (List.dropWhile_sublist (l := rest) isStyleParameter).length_le
    simp only [List.length_cons] at h₁
    omega

/-- A printed line. -/
def line (s : String) : String := String.ofList (withoutStyles s.toList) ++ "\n"

/-- The statuses of a record, or a dash when it has none. -/
def statusList (r : Record) : String :=
  match r.responses with
  | [] => "-"
  | responses =>
    ", ".intercalate (responses.map fun s => Document.statusText (Document.statusOf s))

/-- The method of a record, as wide as the longest method. -/
def methodColumn (m : Method) : String := String.ofList (m.name.toUpper.toList.rightpad 7 ' ')

/-- The line of a record. -/
def recordLine (r : Record) : String :=
  line (methodColumn r.method ++ " " ++ r.path ++ "  [" ++ statusList r ++ "]")

/-- What is printed when help is asked for. -/
def helpText : String :=
  "\n".intercalate
    ["Usage: COMMAND [OPTIONS]",
     "",
     "Commands:",
     "  generate  Analyze source files and write the OpenAPI document.",
     "  routes    List the routes found in the source files.",
     "",
     "Options:",
     "  --entries TEXT           Glob pattern of files to analyze (repeatable).",
     "  --root, --autoroutes DIRECTORY",
     "                           Root of a route.ts folder tree.",
     "  --autorouter DIRECTORY   Root of a file-per-route folder tree.",
     "  --strict-receivers       Only accept receivers typed as a Hono router.",
     "  -v, --verbose            Show debug logging.",
     "  --help                   Show this message and exit.",
     "",
     "Options of generate:",
     "  -o, --out FILE           Output file.",
     "  --format [json|yaml]     Output format (default: from the output suffix).",
     "  --title TEXT             Document title.",
     "  --api-version TEXT       Document version.",
     ""]

/-! ## Outcomes -/

/-- How a run ends. -/
inductive Ending where
  /-- With output and an exit code. -/
  | finished (console : Console)
  /-- The arguments make no sense. -/
  | misused
  /-- With a fault that is not one of the request. -/
  | failed (fault : Fault)

/-- The outcome of a run. -/
structure Outcome where
  ending : Ending
  /-- The files that were skipped on the way. -/
  skipped : List Skipped
  /-- The workspace afterwards. -/
  workspace : Workspace
  /-- The file that was written, be it without its text. -/
  written : Option Path

namespace Outcome

/-- A run that changes nothing. -/
def unchanged (w : Workspace) (skipped : List Skipped) (ending : Ending) : Outcome :=
  ⟨ending, skipped, w, none⟩

/-- A run that a fault ends before anything is changed. -/
def ofFault (w : Workspace) (skipped : List Skipped) (f : Fault) : Outcome :=
  unchanged w skipped <| match f.message? with
    | some message => .finished ⟨1, "", line ("Error: " ++ message)⟩
    | none => .failed f

end Outcome

/-! ## Commands -/

/-- Does a text lead to a file? -/
def leadsToFile (w : Workspace) (text : String) : Bool :=
  (w.entryNamed? text).any (·.isFile)

/-- Does a text lead to a folder? -/
def leadsToFolder (w : Workspace) (text : String) : Bool :=
  (w.entryNamed? text).any (!·.isFile)

/-- The roots of the folder conventions must not be files. -/
def Scope.isUsable (w : Workspace) (s : Scope) : Bool :=
  !(s.root.any (leadsToFile w) || s.autorouter.any (leadsToFile w))

/-- The file to write must not be a folder. -/
def Target.isUsable (w : Workspace) (t : Target) : Bool :=
  !leadsToFolder w t.out

/-- What the options ask of the project. -/
def Scope.request (s : Scope) : Except Fault Request :=
  match Convention.choose (s.root.map Path.ofString) (s.autorouter.map Path.ofString) with
  | .error _ => .error .conflict
  | .ok convention =>
    .ok ⟨s.entries, convention, if s.strict then ⟨some Route.knownRouterTypes⟩ else .any⟩

/-- The survey of the project that the options ask for. -/
def Scope.survey (tools : Tools) (w : Workspace) (s : Scope) : Project.Survey :=
  match s.request with
  | .error f => .fault f
  | .ok r => Project.survey tools w r

/-- Suffixes of files that are written as YAML. -/
def yamlSuffixes : List String := [".yaml", ".yml"]

/-- The format of the document: the one asked for, or else that of the suffix. -/
def Target.formatFor (t : Target) : Document.Format :=
  match t.format with
  | some f => f
  | none =>
    if yamlSuffixes.contains (Path.ofString t.out).suffix.toLower then .yaml else .json

/-- The line that says where a document is. -/
def Target.savedLine (t : Target) : String :=
  line ("OpenAPI document saved to " ++ (Path.ofString t.out).text)

/-- The line that says how many routes there are, before the document is made of them. -/
def foundLine (records : List Record) : String :=
  line ("Found " ++ toString records.length ++ " routes.")

/-- Writes a file, and the folders that are missing above it. -/
def writeWithFolders (encodes : String → Bool) (w : Workspace) (file : Path) (text : String) :
    Option Obstacle × Workspace :=
  match w.makeFolders file.parent with
  | (some o, w') => (some o, w')
  | (none, w') => w'.writeText encodes file text

section

variable (tools : Tools) (w : Workspace) (s : Scope)

/-- Writes the document of all routes. -/
def generate (t : Target) : Outcome :=
  let survey := s.survey tools w
  match survey.records with
  | .error f => .ofFault w survey.skipped f
  | .ok records =>
    let file := Path.ofString t.out
    if !tools.prints (foundLine records) then .unchanged w survey.skipped (.failed .unprintable)
    else
      match Document.assemble? ⟨t.title, t.version⟩ records with
      | none => .unchanged w survey.skipped (.failed .longStatus)
      | some document =>
        match writeWithFolders tools.encodes w file (Document.write tools.yamlText t.formatFor document) with
        | (some o, w') =>
          let written := if o = .notEncodable then some file else none
          ⟨.failed (.blocked o), survey.skipped, w', written⟩
        | (none, w') =>
          let ending := if tools.prints t.savedLine
            then .finished ⟨0, foundLine records ++ t.savedLine, ""⟩ else .failed .unprintable
          ⟨ending, survey.skipped, w', some file⟩

/-- What keeps a record from being listed. -/
def listingFault? (r : Record) : Option Fault :=
  if Document.hasLongStatus r then some .longStatus
  else if tools.prints (recordLine r) then none else some .unprintable

/-- Lists all routes. -/
def routes : Outcome :=
  let survey := s.survey tools w
  match survey.records with
  | .error f => .ofFault w survey.skipped f
  | .ok records =>
    let total := line (toString records.length ++ " routes.")
    match records.findSome? (listingFault? tools) with
    | some f => .unchanged w survey.skipped (.failed f)
    | none =>
      .unchanged w survey.skipped <| if tools.prints total then
        .finished ⟨0, String.join (records.map recordLine) ++ total, ""⟩ else .failed .unprintable

/-- Runs what the arguments ask for. -/
def run (args : List String) : Outcome :=
  match Invocation.ofArguments? args with
  | none => .unchanged w [] .misused
  | some .help => .unchanged w [] (.finished ⟨0, helpText, ""⟩)
  | some (.generate s t) =>
    if s.isUsable w && t.isUsable w then generate tools w s t else .unchanged w [] .misused
  | some (.routes s) =>
    if s.isUsable w then routes tools w s else .unchanged w [] .misused

end

/-! ## What a run looks at -/

/-- The folders below which a survey finds its files and looks for middleware. -/
def Scope.places (s : Scope) : List Path :=
  match s.request with
  | .error _ => []
  | .ok r =>
    let bases := (r.patterns.flatMap Files.expandBraces).map fun p => (Files.splitBase p).1
    bases ++ (s.root.toList ++ s.autorouter.toList).map Path.ofString

/-- The options that say where the files of a run are. -/
def Invocation.scope? : Invocation → Option Scope
  | .help => none
  | .generate s _ => some s
  | .routes s => some s

/-- The file that a run is to write. -/
def Invocation.target? : Invocation → Option Target
  | .generate _ t => some t
  | .help | .routes _ => none

end RouteScribe.Command
