import RouteScribe.Document.Json
import RouteScribe.Numeral.Basic
import RouteScribe.Route.Record
import RouteScribe.Route.Status
import RouteScribe.Route.Template
import RouteScribe.Schema.TypeText

/-!
# Documents from route records

The records of all files are folded into one document.  Records with the same path template and the
same method describe one operation: its parameters and its request body come from the first record
that has them, and of responses with the same status the last one counts.  Path templates, methods
and parameters keep the order in which they first appear.

A status is written in decimal, which a number of too many digits cannot be: records with such a status
have no document (`assemble?`).
-/

namespace RouteScribe.Document

open Route (Headers Query Record Response)

/-! ## Responses -/

/-- The media type of content that states none. -/
def defaultMediaType : String := "application/json"

/-- Content of the given media type. -/
def contentField (mediaType : String) (s : Schema) : String × Value :=
  ("content", .object [(mediaType, .object [("schema", s.toValue)])])

/-- A header entry, from its schema. -/
def headerValue (s : Schema) : Value := .object [("schema", s.toValue)]

/-- The headers of a response, when there are any. -/
def headersField : Headers → List (String × Value)
  | .given [] => []
  | .given fields => [("headers", .object (fields.map fun f => (f.1, headerValue f.2)))]
  | .location =>
    [("headers", .object
      [("Location", .shared (headerValue (.primitive .string (some "uri") false)))])]

/-- A text that is there and not empty. -/
def nonEmpty (s : Option String) : Option String :=
  s.bind fun t => if t = "" then none else some t

/-- The status that a response stands under: a missing status and the status zero mean 200. -/
def statusOf (r : Response) : Int :=
  match r.status with
  | some s => if s = 0 then 200 else s
  | none => 200

/-- The decimal text of a status. -/
def statusText (status : Int) : String := toString status

/-- A response as it stands in a document. -/
def responseValue (r : Response) : Value :=
  let content := match r.content with
    | some s => [contentField ((nonEmpty r.mediaType).getD defaultMediaType) s]
    | none => []
  .object ([("description", .text (Route.reasonPhrase (statusOf r)))] ++ headersField r.headers ++
    content)

/-- The response of a record that lists none: whatever is known of the type it sends. -/
def fallbackResponse (r : Record) : Value :=
  let schema := match r.responseSchema with
    | some s => some s
    | none => r.responseTypeText.bind Schema.ofTypeText?
  let content := match schema with
    | some s => [contentField defaultMediaType s]
    | none => []
  .object ([("description", .text "OK")] ++ content)

/-- The responses of an operation by status; of responses with the same status the last one
counts. -/
def responsesValue (group : List Record) : Value :=
  match group.flatMap (·.responses) with
  | [] =>
    match group.getLast? with
    | some r => .object [("200", fallbackResponse r)]
    | none => .object []
  | responses =>
    .object (Table.ofList (responses.map fun r => (statusText (statusOf r), responseValue r)))

/-! ## Parameters -/

/-- Where a parameter is found. -/
inductive Place where
  | path | query
  deriving DecidableEq, Repr

def Place.name : Place → String
  | .path => "path"
  | .query => "query"

/-- A parameter of an operation. -/
structure Parameter where
  name : String
  place : Place
  required : Bool
  schema : Schema
  deriving Repr

def Parameter.toValue (p : Parameter) : Value :=
  .object [("name", .text p.name), ("in", .text p.place.name), ("required", .flag p.required),
    ("schema", p.schema.toValue)]

/-- The path parameters of a record: those it lists, or else those of its path. -/
def pathParameters (r : Record) : List Parameter :=
  (if r.params.isEmpty then Route.params r.path else r.params).map fun name =>
    ⟨name, .path, true, .text⟩

/-- The query parameters of a record. -/
def queryParameters (r : Record) : List Parameter :=
  match r.query with
  | some q => q.properties.map fun p => ⟨p.1, .query, q.required.contains p.1, p.2⟩
  | none => []

/-- Keeps the first parameter of each name and place; `seen` holds those that have occurred. -/
def firstParameters (seen : List (String × Place)) : List Parameter → List Parameter
  | [] => []
  | p :: rest =>
    if (p.name, p.place) ∈ seen then firstParameters seen rest
    else p :: firstParameters ((p.name, p.place) :: seen) rest

/-- The parameters of an operation: those of the path before those of the query. -/
def parameters (group : List Record) : List Parameter :=
  firstParameters [] (group.flatMap pathParameters ++ group.flatMap queryParameters)

/-! ## Operations -/

/-- The middleware scopes of all records of an operation, each once. -/
def scopes (group : List Record) : List String :=
  (group.flatMap fun r => r.scopes.getD []).eraseDups

/-- The request body of an operation: that of the first record that has one. -/
def requestBody (group : List Record) : Option Schema :=
  group.findSome? (·.requestBody)

/-- The operation that a group of records describes. -/
def operation (group : List Record) : Value :=
  let parameterField : List (String × Value) := match parameters group with
    | [] => []
    | ps => [("parameters", .list (ps.map Parameter.toValue))]
  let scopeFields : List (String × Value) := match scopes group with
    | [] => []
    | ss => [("tags", .list (ss.map .text)),
        ("description", .text ("Middleware applied from: " ++ ", ".intercalate ss))]
  let bodyField : List (String × Value) := match requestBody group with
    | some s => [("requestBody", .object [("required", .flag true), contentField defaultMediaType s])]
    | none => []
  .object (parameterField ++ scopeFields ++ bodyField ++ [("responses", responsesValue group)])

/-! ## Documents -/

/-- What tells operations apart: the path template and the method. -/
def operationKey (r : Record) : String × Method := (Route.template r.path, r.method)

/-- The operations of a list of records, in the order of their first records. -/
def operationKeys (records : List Record) : List (String × Method) :=
  (records.map operationKey).eraseDups

/-- The records of one operation, in order. -/
def groupOf (records : List Record) (key : String × Method) : List Record :=
  records.filter fun r => operationKey r = key

/-- The operations under one path template, by method. -/
def pathItem (records : List Record) (template : String) : Value :=
  let keys := (operationKeys records).filter fun k => k.1 = template
  .object (keys.map fun k => (k.2.name, operation (groupOf records k)))

/-- The path templates of a document, with their operations. -/
def pathItems (records : List Record) : List (String × Value) :=
  let templates := ((operationKeys records).map (·.1)).eraseDups
  templates.map fun t => (t, pathItem records t)

/-- What a document says about itself. -/
structure Info where
  title : String
  version : String
  deriving Repr

def defaultTitle : String := "hono-openapi"

def defaultVersion : String := "0.1.0"

/-- The info of a document for which nothing else is asked. -/
def defaultInfo : Info := ⟨defaultTitle, defaultVersion⟩

/-- The version of the document format. -/
def formatVersion : String := "3.0.1"

/-- The document that describes all routes of a list of records. -/
def assemble (info : Info) (records : List Record) : Value :=
  .object
    [("openapi", .text formatVersion),
     ("info", .object [("title", .text info.title), ("version", .text info.version)]),
     ("paths", .object (pathItems records))]

/-- Does some response stand under a status that has no decimal text? -/
def hasLongStatus (r : Record) : Bool :=
  r.responses.any fun s => Numeral.isLongInt (statusOf s)

/-- The document of a list of records, which there is unless a status has no decimal text. -/
def assemble? (info : Info) (records : List Record) : Option Value :=
  if records.any hasLongStatus then none else some (assemble info records)

/-- The forms in which a document is written. -/
inductive Format where
  | json | yaml
  deriving DecidableEq, Repr

/-- The text of a document, given the writer for its YAML form. -/
def write (yamlText : Value → String) (f : Format) (document : Value) : String :=
  match f with
  | .json => document.pretty
  | .yaml => yamlText document

end RouteScribe.Document
