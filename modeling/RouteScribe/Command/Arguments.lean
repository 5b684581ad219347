import RouteScribe.Document.Assembly
import RouteScribe.Files.Path

/-!
# Arguments of the command line

The first argument names a command, and the rest are its options, in any order.  An option has a
long name after two dashes or a letter after one.  Its value is the next argument, whatever that
looks like, or stands behind an equals sign after a long name, or directly behind a letter.  Letters
may be joined behind one dash.  Two dashes alone end the options.  No command takes arguments other
than options.
-/

namespace RouteScribe.Command

/-- The commands. -/
inductive Verb where
  /-- Write the document. -/
  | generate
  /-- List the routes. -/
  | routes
  deriving DecidableEq, Repr

def Verb.ofName? (name : String) : Option Verb :=
  if name = "generate" then some .generate
  else if name = "routes" then some .routes
  else none

/-- The options. -/
inductive Opt where
  | entries | root | autorouter | strict | verbose
  | out | format | title | version
  | help
  deriving DecidableEq, Repr

namespace Opt

/-- Does the option take a value? -/
def takesValue : Opt → Bool
  | .strict | .verbose | .help => false
  | .entries | .root | .autorouter | .out | .format | .title | .version => true

/-- The option with a long name, written with its dashes. -/
def ofLong? (name : String) : Option Opt :=
  [("--entries", entries), ("--root", root), ("--autoroutes", root), ("--autorouter", autorouter),
   ("--strict-receivers", strict), ("--verbose", verbose), ("--out", out), ("--format", format),
   ("--title", title), ("--api-version", version), ("--help", help)].lookup name

/-- The option with a letter. -/
def ofLetter? (c : Char) : Option Opt :=
  [('o', out), ('v', verbose)].lookup c

/-- Does a command know the option? -/
def appliesTo (o : Opt) : Verb → Bool
  | .generate => true
  | .routes => o ∉ [.out, .format, .title, .version]

end Opt

/-- An option as it was given; the value of a flag is empty. -/
structure Setting where
  option : Opt
  value : String
  deriving DecidableEq, Repr

/-- The long name of an argument, and the value behind its equals sign. -/
def splitLong (arg : String) : String × Option String :=
  let cs := arg.toList
  match cs.dropWhile (· != '=') with
  | [] => (arg, none)
  | _ :: value => (String.ofList (cs.takeWhile (· != '=')), some (String.ofList value))

/-- What is read from the start of the arguments: the settings, and whether the value of the last
one is the next argument. -/
structure Reading where
  settings : List Setting
  awaits : Option Opt

/-- An option with no value behind it, or with the value that stands behind it. -/
def readOption (o : Opt) (value : Option String) : Option Reading :=
  match o.takesValue, value with
  | true, some v => some ⟨[⟨o, v⟩], none⟩
  | true, none => some ⟨[], some o⟩
  | false, none => some ⟨[⟨o, ""⟩], none⟩
  | false, some _ => none

/-- Letters behind one dash.  The first that takes a value takes what is left of them, or the next
argument when nothing is left. -/
def readLetters (verb : Verb) : List Char → Option Reading
  | [] => some ⟨[], none⟩
  | c :: rest => do
    let o ← Opt.ofLetter? c
    if !o.appliesTo verb then none
    else if o.takesValue then readOption o (if rest.isEmpty then none else some (String.ofList rest))
    else
      let later ← readLetters verb rest
      return { later with settings := ⟨o, ""⟩ :: later.settings }

/-- One argument that is an option. -/
def readArgument (verb : Verb) (arg : String) : Option Reading :=
  let (name, value) := splitLong arg
  match (Opt.ofLong? name).filter (·.appliesTo verb) with
  | some o => readOption o value
  | none =>
    match arg.toList with
    | '-' :: '-' :: _ => none
    | '-' :: letter :: letters => readLetters verb (letter :: letters)
    | _ => none

/-- The settings of a command, in order; nothing if the arguments cannot be read. -/
def readSettings (verb : Verb) : List String → Option (List Setting)
  | [] => some []
  | arg :: rest =>
    if arg = "--" then if rest.isEmpty then some [] else none
    else
      match readArgument verb arg with
      | none => none
      | some ⟨settings, none⟩ => (readSettings verb rest).map (settings ++ ·)
      | some ⟨settings, some o⟩ =>
        match rest with
        | [] => none
        | value :: rest => (readSettings verb rest).map (settings ++ ⟨o, value⟩ :: ·)

/-! ## Options of a command -/

/-- The options that both commands know. -/
structure Scope where
  entries : List String
  root : Option String
  autorouter : Option String
  strict : Bool
  deriving DecidableEq, Repr

/-- The options for the document. -/
structure Target where
  out : String
  format : Option Document.Format
  title : String
  version : String
  deriving DecidableEq, Repr

/-- The last value of an option. -/
def lastValue? (settings : List Setting) (o : Opt) : Option String :=
  (settings.reverse.find? (·.option = o)).map (·.value)

/-- Is an option given at all? -/
def isGiven (settings : List Setting) (o : Opt) : Bool :=
  settings.any (·.option = o)

/-- All values of an option, in order. -/
def allValues (settings : List Setting) (o : Opt) : List String :=
  (settings.filter (·.option = o)).map (·.value)

/-- The options that both commands know, from their settings. -/
def Scope.ofSettings (settings : List Setting) : Scope :=
  { entries := allValues settings .entries
    root := lastValue? settings .root
    autorouter := lastValue? settings .autorouter
    strict := isGiven settings .strict }

/-- The file that is written when no other is asked for. -/
def defaultOut : String := "openapi.json"

/-- The format of a name; the names are in lower case. -/
def formatOf? (name : String) : Option Document.Format :=
  if name = "json" then some .json
  else if name = "yaml" then some .yaml
  else none

/-- The options for the document, from their settings; nothing if the format has no such name. -/
def Target.ofSettings? (settings : List Setting) : Option Target := do
  let format ← match lastValue? settings .format with
    | none => some none
    | some name => (formatOf? name).map some
  return {
    out := (lastValue? settings .out).getD defaultOut
    format
    title := (lastValue? settings .title).getD Document.defaultTitle
    version := (lastValue? settings .version).getD Document.defaultVersion }

/-- What the arguments ask for. -/
inductive Invocation where
  | help
  | generate (scope : Scope) (target : Target)
  | routes (scope : Scope)
  deriving DecidableEq, Repr

/-- Reads the arguments of a command; nothing if they cannot be read.  A call for help is answered
before the values of the other options are looked at. -/
def Invocation.ofSettings? (verb : Verb) (settings : List Setting) : Option Invocation :=
  if isGiven settings .help then some .help
  else
    match verb with
    | .generate => (Target.ofSettings? settings).map (.generate (.ofSettings settings))
    | .routes => some (.routes (.ofSettings settings))

/-- Reads all arguments, the command included. -/
def Invocation.ofArguments? : List String → Option Invocation
  | [] => none
  | arg :: rest =>
    if arg = "--help" then some .help
    else
      let call := if arg = "--" then rest else arg :: rest
      match call with
      | [] => none
      | name :: options => do
        let verb ← Verb.ofName? name
        let settings ← readSettings verb options
        Invocation.ofSettings? verb settings

end RouteScribe.Command
