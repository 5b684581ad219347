import RouteScribe.Route.Method
import RouteScribe.Schema.Basic

/-!
# Route records

What is known about one registered route: its method and path, what it reads from the request, and
the responses it can send.
-/

namespace RouteScribe.Route

/-- The headers of a response. -/
inductive Headers where
  /-- Headers with their schemas; an empty list is no headers. -/
  | given (fields : List (String × Schema))
  /-- The address that a redirect leads to.  All redirects share it. -/
  | location
  deriving Repr, Inhabited

/-- One response that a handler sends. -/
structure Response where
  /-- The status code, when it is stated. -/
  status : Option Int
  content : Option Schema
  mediaType : Option String
  headers : Headers
  /-- The type of the content, as it is displayed. -/
  typeText : Option String
  deriving Repr, Inhabited

/-- The query parameters that a handler reads. -/
structure Query where
  properties : List (String × Schema)
  required : List String
  deriving Repr, Inhabited

/-- The query as an object schema. -/
def Query.schema (q : Query) : Schema := .object q.properties q.required false

/-- A route that is registered in a source file. -/
structure Record where
  method : Method
  path : String
  params : List String
  responseTypeText : Option String
  responseSchema : Option Schema
  requestBody : Option Schema
  query : Option Query
  responses : List Response
  /-- The prefixes of the folders whose middleware applies, when folders are taken into account. -/
  scopes : Option (List String)
  deriving Repr, Inhabited

/-- The record of a method and a path about which nothing else is known. -/
def Record.bare (method : Method) (path : String) (params : List String) : Record :=
  { method, path, params, responseTypeText := none, responseSchema := none, requestBody := none
    query := none, responses := [], scopes := none }

end RouteScribe.Route
