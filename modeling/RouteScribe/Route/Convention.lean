import RouteScribe.Files.Tree
import RouteScribe.Route.Record
import RouteScribe.Route.Template

/-!
# Folder conventions

The place of a source file can contribute to the paths of the routes in it.  Under the grouped
convention only files named `route` count: their folder is a prefix, and middleware files in the
folders above them mark scopes.  Under the convention of one file per route every file counts, its
own name included, and names in brackets are parameters.
-/

namespace RouteScribe.Route

open Files (Path Workspace)

/-- The suffixes of source files. -/
def sourceSuffixes : List String := [".ts", ".tsx", ".js", ".jsx"]

/-- A folder convention, with the folder that it applies below. -/
inductive Convention where
  | grouped (root : Path)
  | perFile (root : Path)
  deriving DecidableEq, Repr

/-- Both conventions were asked for at once. -/
structure ConventionConflict where
  deriving DecidableEq, Repr

def ConventionConflict.message (_ : ConventionConflict) : String :=
  "Use either an autoroutes root or an autorouter root, not both"

/-- The convention that the given roots ask for, if any. -/
def Convention.choose (grouped perFile : Option Path) :
    Except ConventionConflict (Option Convention) :=
  match grouped, perFile with
  | some _, some _ => .error {}
  | some root, none => .ok (some (.grouped root))
  | none, some root => .ok (some (.perFile root))
  | none, none => .ok none

/-- The patterns of the files that a convention looks at. -/
def defaultEntries (entry : String) : Option Convention → List String
  | some (.grouped root) => [root.text ++ "/**/route.\x7bts,tsx\x7d"]
  | some (.perFile root) => [root.text ++ "/**/*.\x7bts,tsx\x7d"]
  | none => [entry]

/-- A route path with the given segments. -/
def pathOf (segments : List String) : String := "/" ++ "/".intercalate segments

/-! ## Grouped routes -/

/-- Is the file one that the grouped convention looks at? -/
def isRouteFile (file : Path) : Bool :=
  file.stem == "route" && sourceSuffixes.contains file.suffix

/-- The names of the folders from the root down to the folder of a file, when it lies there. -/
def foldersBelow (cwd : List String) (file root : Path) : Option (List String) :=
  Path.relativeTo? (root.resolve cwd) (file.parent.resolve cwd)

/-- The path prefix of the routes of a file. -/
def groupPath (cwd : List String) (file root : Path) : Option String :=
  (foldersBelow cwd file root).map pathOf

/-- Does the folder at a place hold a middleware file? -/
def hasMiddleware (w : Workspace) (place : List String) : Bool :=
  sourceSuffixes.any fun suffix =>
    match w.root.get? (place ++ ["middleware" ++ suffix]) with
    | some e => e.isFile
    | none => false

/-- What a place below the root contributes: its prefix, if it holds a middleware file. -/
def scopesAt? (w : Workspace) (root place : List String) : Option (List String) :=
  (Path.relativeTo? root place).map fun names =>
    if hasMiddleware w place then [pathOf names] else []

/-- The prefixes of the folders with middleware that are met when climbing from a place, which is
given by its names from the last to the first.  The climb ends where it has left the root, at the
root, or at the top of the file system. -/
def climbScopes (w : Workspace) (root : List String) : List String → List String
  | [] => (scopesAt? w root []).getD []
  | name :: up =>
    let place := (name :: up).reverse
    match scopesAt? w root place with
    | none => []
    | some own => own ++ if place = root then [] else climbScopes w root up

/-- The prefixes of the folders, from the root down to the folder of a file, that hold a middleware
file. -/
def middlewareScopes (w : Workspace) (file root : Path) : List String :=
  (climbScopes w (root.resolve w.cwd) (file.parent.resolve w.cwd).reverse).reverse

/-! ## One file per route -/

/-- The method that a file is named after, in any case of its letters.  The names of the methods are
ASCII, and no other letters fall together with theirs. -/
def methodOfStem? (stem : String) : Option Method := Method.ofName? stem.toLower

/-- The stem of a file that adds no segment of its own. -/
def indexStem : String := "index"

/-- What stands between a fixed start and a fixed end, when the text has both apart. -/
def inside? (opening closing : Char) (cs : List Char) : Option (List Char) :=
  match cs with
  | c :: rest =>
    if c = opening ∧ rest.getLast? = some closing then some rest.dropLast else none
  | [] => none

/-- The route segment of a file or folder name: a name in one or two pairs of brackets is a
parameter, and three points in front of it do not count. -/
def segmentChars (cs : List Char) : List Char :=
  match inside? '[' ']' cs with
  | none => cs
  | some name =>
    let name := (inside? '[' ']' name).getD name
    ':' :: (match name with
      | '.' :: '.' :: '.' :: rest => rest
      | _ => name)

def segment (name : String) : String := String.ofList (segmentChars name.toList)

/-- The path that a file below the root contributes to its routes. -/
def filePath (cwd : List String) (root file : Path) : Option String :=
  (Path.relativeTo? (root.resolve cwd) (file.resolve cwd)).map fun names =>
    let stem := (Path.splitName (names.getLast?.getD "")).1
    let own := if (methodOfStem? stem).isSome || stem == indexStem then [] else [stem]
    pathOf (((names.dropLast ++ own).map segment).filter (· != ""))

/-! ## Composition -/

/-- The record under a folder path. -/
def Record.under (r : Record) (folder : String) : Record :=
  let path := join (some folder) r.path
  { r with path, params := Route.params path }

/-- The records of a file, under what its place contributes. -/
def compose (w : Workspace) (convention : Option Convention) (file : Path)
    (records : List Record) : List Record :=
  match convention with
  | none => records
  | some (.grouped root) =>
    if isRouteFile file then
      match groupPath w.cwd file root with
      | none => records
      | some folder =>
        let scopes := middlewareScopes w file root
        records.map fun r => { r.under folder with scopes := some scopes }
    else records
  | some (.perFile root) =>
    match filePath w.cwd root file with
    | none => records
    | some folder => records.map (·.under folder)

end RouteScribe.Route
