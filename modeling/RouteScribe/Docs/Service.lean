import RouteScribe.Docs.Page
import RouteScribe.Project.Survey

/-!
# Serving the document

A service answers requests for the document and for the page that shows it.  The document is fixed,
or a supplier is called for it at each load, or it is generated from the files of the project at each
load.  Unless the service refreshes it on every request, the first document that could be loaded is
kept; a load that fails keeps nothing, so the next request tries again.
-/

namespace RouteScribe.Docs

open Document (Info Value)
open Files (Path Workspace)
open Project (Fault Skipped Tools)

/-- Where the document comes from. -/
inductive Origin where
  /-- Always the same document. -/
  | fixed (document : Value)
  /-- A supplier, which sees the files, knows how often it has been called, this call included, and
  may fail. -/
  | called (supply : Workspace → Nat → Except Fault Value)
  /-- The routes of the project, below a grouped root if there is one. -/
  | generated (tools : Tools) (entries : List String) (root : Option Path) (title : String)

/-- What a service is set up with. -/
structure Settings where
  docsPath : String
  jsonPath : String
  /-- The title of the page. -/
  title : String
  /-- Whether the document is loaded again for every request. -/
  refresh : Bool
  deriving Repr

/-- The settings when nothing else is asked for. -/
def defaultSettings : Settings := ⟨"/docs", "/openapi.json", "API Docs", false⟩

/-- There is neither a document nor anything to generate one from. -/
structure MissingOrigin where
  deriving DecidableEq, Repr

def MissingOrigin.message (_ : MissingOrigin) : String :=
  "Provide either a document or entries to generate one from"

/-- The origin to use: a given one, or else the entries, of which there must be some. -/
def Origin.choose (tools : Tools) (given : Option Origin) (entries : List String)
    (root : Option Path) (title : String) : Except MissingOrigin Origin :=
  match given with
  | some origin => .ok origin
  | none => if entries.isEmpty then .error {} else .ok (.generated tools entries root title)

/-- What a load gives: the document or a fault, and the files that were skipped. -/
structure Load where
  document : Except Fault Value
  skipped : List Skipped

/-- Loads the document; `calls` is how often it has been loaded before. -/
def Origin.load (w : Workspace) (calls : Nat) : Origin → Load
  | .fixed document => ⟨.ok document, []⟩
  | .called supply => ⟨supply w (calls + 1), []⟩
  | .generated tools entries root title =>
    let survey := Project.survey tools w ⟨entries, root.map .grouped, .any⟩
    let document := survey.records.bind fun records =>
      match Document.assemble? ⟨title, Document.defaultVersion⟩ records with
      | some document => .ok document
      | none => .error .longStatus
    ⟨document, survey.skipped⟩

/-- A service in operation. -/
structure Service where
  settings : Settings
  origin : Origin
  /-- How often the document has been loaded. -/
  loads : Nat
  /-- The document that is kept. -/
  kept : Option Value

namespace Service

/-- A service that has not been asked yet. -/
def start (settings : Settings) (origin : Origin) : Service := ⟨settings, origin, 0, none⟩

/-- The current document, and the service afterwards. -/
def current (s : Service) (w : Workspace) : Load × Service :=
  match s.settings.refresh, s.kept with
  | false, some document => (⟨.ok document, []⟩, s)
  | refresh, _ =>
    let load := s.origin.load w s.loads
    let kept := match refresh, load.document with
      | false, .ok document => some document
      | _, _ => s.kept
    (load, { s with loads := s.loads + 1, kept })

end Service

/-! ## Replies -/

/-- A reply to a request. -/
structure Reply where
  status : Nat
  contentType : String
  body : String
  deriving DecidableEq, Repr

/-- The reply with a document. -/
def Reply.json (status : Nat) (v : Value) : Reply := ⟨status, "application/json", v.dense⟩

/-- The reply for a path at which there is nothing. -/
def Reply.notFound : Reply := .json 404 (.object [("detail", .text "Not Found")])

/-- The outcome of a request. -/
structure Exchange where
  reply : Except Fault Reply
  skipped : List Skipped
  service : Service

/-- Answers a request for a path.  The document goes before the page when both have the same path. -/
def Service.get (s : Service) (w : Workspace) (path : String) : Exchange :=
  if path = s.settings.jsonPath then
    let (load, s') := s.current w
    ⟨load.document.map (Reply.json 200), load.skipped, s'⟩
  else if path = s.settings.docsPath then
    ⟨.ok ⟨200, "text/html; charset=utf-8", page s.settings.title s.settings.jsonPath⟩, [], s⟩
  else ⟨.ok .notFound, [], s⟩

end RouteScribe.Docs
