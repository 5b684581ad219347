import RouteScribe.Command.Run

/-!
# The program

Reads the part of the file system that a command looks at into a workspace, runs the command on it,
writes the file that the command has written, and prints what it prints.
-/

namespace RouteScribe.Program

open Files (Entry Path Workspace)
open Project (Fault Skipped)

/-- The text of a place. -/
def placeText (place : List String) : String := (Path.absolute place).text

/-- The folder or file at a path, with everything below it; links to folders are not entered. -/
partial def readTree (path : String) : IO Entry := do
  let place ← IO.FS.realPath path
  if ← place.isDir then
    let entries ← (← place.readDir).toList.mapM fun child => do
      let kind := (← child.path.symlinkMetadata).type
      if kind == .symlink && (← child.path.isDir) then
        return [(child.fileName, Entry.folder [])]
      else
        try
          return [(child.fileName, ← readTree child.path.toString)]
        catch _ => return []
    return .folder entries.flatten
  else return .file (← IO.FS.readBinFile path)

/-- What stands at a path, without what is below it. -/
def readKind (path : String) : IO Entry := do
  let place ← IO.FS.realPath path
  if ← place.isDir then return .folder [] else return .file .empty

/-- The tree with what stands at a place, unless that is known or there is nothing. -/
def look (read : String → IO Entry) (root : Entry) (place : List String) : IO Entry := do
  if (root.get? place).isSome then return root
  else
    try
      return (← read (placeText place)).graft place root
    catch _ => return root

/-- The part of the file system that a command looks at.  Of two places one below the other, the
upper one is read first, so that it is read whole. -/
def observe (invocation : Command.Invocation) : IO Workspace := do
  let cwd := (Path.ofString (← IO.currentDir).toString).names
  let searched := ((invocation.scope?.map Command.Scope.places).getD []).map (·.resolve cwd)
  let ordered := searched.mergeSort fun a b => a.length ≤ b.length
  let root ← ordered.foldlM (look readTree) (.folder [])
  let written := invocation.target?.toList.map fun t => (Path.ofString t.out).resolve cwd
  let root ← written.foldlM (look readKind) root
  let root := if (root.get? cwd).isSome then root else (Entry.folder []).graft cwd root
  return ⟨root, cwd⟩

/-- Why a file was skipped, in words. -/
def reasonText : Project.SkipReason → String
  | .malformed => "syntax errors"
  | .unreadable .notText => "not a text in UTF-8"
  | .unreadable .isFolder => "is a directory"
  | .unreadable _ => "no such file"

/-- A fault that is not one of the request, in words. -/
def faultText (f : Fault) : String :=
  match f with
  | .analysis (.notANumber text) => "not a number: " ++ text
  | .analysis .infiniteStatus => "a status is infinite"
  | .analysis .longNumber => "a number has too many digits to be displayed"
  | .analysis .exhausted => "the types of a file nest too deeply"
  | .refused .malformed => "a pattern is malformed"
  | .refused .backwardRange => "a range in a pattern ends before it starts"
  | .longStatus => "a status has too many digits to be written"
  | .blocked _ => "the document cannot be written"
  | .unprintable => "a line cannot be printed"
  | .noFiles _ | .conflict => f.message?.getD ""

/-- Writes the file that a run has written. -/
def save (w : Workspace) (file : Path) : IO Unit := do
  match w.readBytes file with
  | .ok bytes =>
    IO.FS.createDirAll file.parent.text
    IO.FS.writeBinFile file.text bytes
  | .error _ => pure ()

/-- Prints how a run ends, and gives its exit code. -/
def finish : Command.Ending → IO UInt32
  | .finished console => do
    IO.print console.out
    IO.eprint console.err
    return console.exitCode.toUInt32
  | .misused => do
    IO.eprint Command.helpText
    return 2
  | .failed f => do
    IO.eprintln ("Error: " ++ faultText f)
    return 1

end RouteScribe.Program

open RouteScribe in
/-- Runs a command on the file system. -/
def main (args : List String) : IO UInt32 := do
  match Command.Invocation.ofArguments? args with
  | none => Program.finish .misused
  | some invocation =>
    let outcome := Command.run .standard (← Program.observe invocation) args
    for skipped in outcome.skipped do
      IO.eprintln ("WARNING Skipping " ++ skipped.file.text ++ ": " ++
        Program.reasonText skipped.reason)
    outcome.written.forM (Program.save outcome.workspace)
    Program.finish outcome.ending
