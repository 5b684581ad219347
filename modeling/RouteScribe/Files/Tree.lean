import RouteScribe.Files.Path

/-!
# File trees

The part of a file system that an analysis sees, as a value: folders of named entries, and files
with their bytes.  There are no links, so a place in the tree is the list of names that leads to it
from the root, and reading and writing are functions on trees.
-/

namespace RouteScribe.Files

/-- A file or a folder. -/
inductive Entry where
  | file (content : ByteArray)
  | folder (entries : List (String × Entry))

namespace Entry

instance : Inhabited Entry := ⟨.folder []⟩

/-- The entry of a folder with the given name. -/
def child? (name : String) : Entry → Option Entry
  | .file _ => none
  | .folder entries => entries.lookup name

/-- The entry at a place. -/
def get? (e : Entry) : List String → Option Entry
  | [] => some e
  | n :: ns => (e.child? n).bind fun sub => sub.get? ns

@[simp] theorem get?_nil (e : Entry) : e.get? [] = some e := rfl

@[simp] theorem get?_cons (e : Entry) (n : String) (ns : List String) :
    e.get? (n :: ns) = (e.child? n).bind fun sub => sub.get? ns := rfl

def isFile : Entry → Bool
  | .file _ => true
  | .folder _ => false

/-- Puts an entry under a name: in the place of the one that was there, or at the end. -/
def putIn (name : String) (e : Entry) : List (String × Entry) → List (String × Entry)
  | [] => [(name, e)]
  | (n, old) :: rest => if n = name then (n, e) :: rest else (n, old) :: putIn name e rest

end Entry

namespace Entry

/-- The tree with an entry put at a place, and with folders on the way to it. -/
def graft (sub : Entry) : List String → Entry → Entry
  | [], _ => sub
  | n :: ns, .folder entries =>
    .folder (putIn n (sub.graft ns ((entries.lookup n).getD (.folder []))) entries)
  | n :: ns, .file _ => .folder [(n, sub.graft ns (.folder []))]

end Entry

/-- Why a place cannot be used. -/
inductive Obstacle where
  /-- Nothing is there. -/
  | missing
  /-- A folder is there, where a file is needed. -/
  | isFolder
  /-- A file is on the way, where a folder is needed. -/
  | notFolder
  /-- A file is there, where a folder is to be made. -/
  | alreadyThere
  /-- The bytes of the file are no text. -/
  | notText
  /-- The text has no bytes that stand for it. -/
  | notEncodable
  deriving DecidableEq, Repr

namespace Entry

/-- The bytes of the file at a place. -/
def readBytes (e : Entry) : List String → Except Obstacle ByteArray
  | [] =>
    match e with
    | .file content => .ok content
    | .folder _ => .error .isFolder
  | n :: ns =>
    match e with
    | .file _ => .error .notFolder
    | .folder entries =>
      match entries.lookup n with
      | none => .error .missing
      | some sub => sub.readBytes ns

/-- Writes a file at a place whose folder is there. -/
def write (content : ByteArray) : Entry → List String → Except Obstacle Entry
  | .folder _, [] => .error .isFolder
  | .file _, [] => .ok (.file content)
  | .file _, _ :: _ => .error .notFolder
  | .folder entries, [n] =>
    match entries.lookup n with
    | some (.folder _) => .error .isFolder
    | _ => .ok (.folder (putIn n (.file content) entries))
  | .folder entries, n :: m :: ns =>
    match entries.lookup n with
    | none => .error .missing
    | some sub => (sub.write content (m :: ns)).map fun sub' => .folder (putIn n sub' entries)

/-- Makes an empty folder at a place whose folder is there.  A folder that is there already stays as
it is. -/
def makeFolder : Entry → List String → Except Obstacle Entry
  | .folder entries, [] => .ok (.folder entries)
  | .file _, [] => .error .alreadyThere
  | .file _, _ :: _ => .error .notFolder
  | .folder entries, [n] =>
    match entries.lookup n with
    | none => .ok (.folder (putIn n (.folder []) entries))
    | some (.folder _) => .ok (.folder entries)
    | some (.file _) => .error .alreadyThere
  | .folder entries, n :: m :: ns =>
    match entries.lookup n with
    | none => .error .missing
    | some sub => (sub.makeFolder (m :: ns)).map fun sub' => .folder (putIn n sub' entries)

end Entry

/-! ## Text of files -/

/-- Line breaks of all three kinds become a line feed. -/
def unifyBreaks : List Char → List Char
  | '\r' :: '\n' :: cs => '\n' :: unifyBreaks cs
  | '\r' :: cs => '\n' :: unifyBreaks cs
  | c :: cs => c :: unifyBreaks cs
  | [] => []

/-- The text of a file: its bytes read as UTF-8, with line feeds for all line breaks. -/
def decodeText (bytes : ByteArray) : Except Obstacle String :=
  match String.fromUTF8? bytes with
  | some s => .ok (String.ofList (unifyBreaks s.toList))
  | none => .error .notText

/-! ## A tree with a working directory -/

/-- A file tree seen from a working directory, which is given by its names from the root down. -/
structure Workspace where
  root : Entry
  cwd : List String

namespace Workspace

/-- Follows names through the tree.  Every name on the way must be a folder that is there, also one
that is left again by `..`; the empty name and `.` stay where they are. -/
def locateFrom (root : Entry) : List String → List String → Except Obstacle (List String)
  | place, [] => .ok place
  | place, n :: ns =>
    match root.get? place with
    | none => .error .missing
    | some (.file _) => .error .notFolder
    | some (.folder _) =>
      let next := if n = "" ∨ n = "." then place else if n = ".." then place.dropLast
        else place ++ [n]
      locateFrom root next ns

/-- The place that a path leads to in the tree; whether anything is there is not asked. -/
def locate (w : Workspace) (p : Path) : Except Obstacle (List String) :=
  locateFrom w.root (if p.rooted then [] else w.cwd) p.names

/-- The entry that a path leads to. -/
def entry? (w : Workspace) (p : Path) : Option Entry :=
  match w.locate p with
  | .ok place => w.root.get? place
  | .error _ => none

/-- The entry that a text leads to, read as it stands: a slash at the end asks for a folder, and the
empty text leads nowhere. -/
def entryNamed? (w : Workspace) (text : String) : Option Entry :=
  let start := if text.toList.head? = some '/' then [] else w.cwd
  if text = "" then none
  else
    match locateFrom w.root start (Text.fieldsOf '/' text) with
    | .ok place => w.root.get? place
    | .error _ => none

def isFile (w : Workspace) (p : Path) : Bool :=
  match w.entry? p with
  | some e => e.isFile
  | none => false

def isFolder (w : Workspace) (p : Path) : Bool :=
  match w.entry? p with
  | some e => !e.isFile
  | none => false

/-- The bytes of the file that a path leads to. -/
def readBytes (w : Workspace) (p : Path) : Except Obstacle ByteArray := do
  let place ← w.locate p
  w.root.readBytes place

/-- The text of the file that a path leads to. -/
def readText (w : Workspace) (p : Path) : Except Obstacle String := do
  let bytes ← w.readBytes p
  decodeText bytes

/-- The workspace after a file has been written; the folder that it goes into must be there. -/
def writeBytes (w : Workspace) (p : Path) (bytes : ByteArray) : Except Obstacle Workspace := do
  let place ← w.locate p
  let root ← w.root.write bytes place
  return { w with root }

/-- The workspace after a file has been written with a text, and what stood in the way.  The file is
made, or emptied, before the text is encoded, so it is left empty when the text cannot be. -/
def writeText (encodes : String → Bool) (w : Workspace) (p : Path) (text : String) :
    Option Obstacle × Workspace :=
  match w.writeBytes p (if encodes text then text.toUTF8 else .empty) with
  | .error o => (some o, w)
  | .ok w' => (if encodes text then none else some .notEncodable, w')

/-- The workspace after the folder of a path has been made; the folder above it must be there. -/
def makeFolder (w : Workspace) (p : Path) : Except Obstacle Workspace := do
  let place ← w.locate p
  let root ← w.root.makeFolder place
  return { w with root }

/-- Makes a folder, given by its names from the last to the first.  When the folder above it is
missing, that one is made before it.  Folders that were made stay also when a later one cannot be
made, so the workspace is given back in either case. -/
def makeFoldersUpward (rooted : Bool) : List String → Workspace → Option Obstacle × Workspace
  | [], w => (none, w)
  | n :: up, w =>
    let p : Path := ⟨rooted, (n :: up).reverse⟩
    let attempt (w : Workspace) : Option Obstacle × Workspace :=
      match w.makeFolder p with
      | .ok w' => (none, w')
      | .error o => (some o, w)
    match attempt w with
    | (some .missing, w) =>
      match makeFoldersUpward rooted up w with
      | (none, w') => attempt w'
      | stopped => stopped
    | answer => answer

/-- The workspace after the folder of a path has been made, with all that are missing above it, and
what stood in the way. -/
def makeFolders (w : Workspace) (p : Path) : Option Obstacle × Workspace :=
  makeFoldersUpward p.rooted p.names.reverse w

end Workspace

end RouteScribe.Files
