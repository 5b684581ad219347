import RouteScribe.Route.Record
import RouteScribe.Typing.Answer
import RouteScribe.Zod

/-!
# Requests of handlers

The body and the query parameters that a handler reads, from the calls `req.json()` and
`req.query(name)` on its context, the types of the variables that take their results, and the zod
schemas that the body is checked against.
-/

namespace RouteScribe.Handler

open Source Typing

/-- What a handler reads. -/
structure Request where
  body : Option Schema
  query : Route.Query

/-- Whether a call reads the request of the context with the given method. -/
def isRequestCall (context : Option String) (method : String) (call : Cursor) : Bool :=
  call.kind == .callExpression &&
    match call.calledMember? with
    | none => false
    | some (name, receiver) =>
      match receiver.unwrap.member? with
      | none => false
      | some (member, object) =>
        let own := context.all fun c =>
          object.unwrap.kind == .identifier && object.unwrap.text == c
        name == method && member == "req" && own

/-- The call in an expression, awaited or not. -/
def awaitedCall? (c : Cursor) : Option Cursor :=
  let base := c.unwrap
  let inside := if base.kind == .awaitExpression then
      (base.named.head?.map Cursor.unwrap).getD base
    else base
  if inside.kind == .callExpression then some inside else none

/-- Adds the parameters of an object schema; other schemas have none. -/
def addObject (q : Route.Query) : Schema → Route.Query
  | .object properties required _ =>
    { properties := Table.putAll q.properties properties
      required := required.foldl (fun rs r => if rs.contains r then rs else rs ++ [r]) q.required }
  | _ => q

/-- Adds a parameter that is read by its name. -/
def addName (q : Route.Query) (name : String) : Route.Query :=
  { q with properties := Table.put name .text q.properties }

/-- Takes in the declaration of a variable: its type tells what is read. -/
def readDeclarator (context : Option String) (r : Request) (c : Cursor) : Infer Request := do
  match (c.child? .value).bind fun value => (awaitedCall? value).map fun call => (value, call) with
  | none => return r
  | some (value, call) =>
    let declared ← match c.child? .type with
      | some annotation => do
        let t ← denoted annotation
        pure (some (← schemaOf t))
      | none => pure none
    let body ← if r.body.isNone && isRequestCall context "json" call then
        match declared with
        | some s => pure (some s)
        | none => do
          let t ← typeOf value
          pure (some (← schemaOf t))
      else pure r.body
    let query := match declared with
      | some s => if isRequestCall context "query" call then addObject r.query s else r.query
      | none => r.query
    return { body, query }

/-- The schema that a call checks the body against. -/
def checkedBody? (context : Option String) (c : Cursor) : Option Schema := do
  let (name, target) ← c.calledMember?
  if name != "parse" && name != "safeParse" then none
  let call ← awaitedCall? (← c.callArguments.head?)
  if !isRequestCall context "json" call then none
  let init ← if Zod.isObjectCall target then some target else target.initializer?
  if Zod.isObjectCall init then Zod.objectCallSchema? init else none

/-- Takes in a call: it may check the body, or read a parameter by its name. -/
def readCall (context : Option String) (r : Request) (c : Cursor) : Request :=
  let body := r.body <|> checkedBody? context c
  let name := if isRequestCall context "query" c then
      c.callArguments.head?.bind Cursor.stringValue?
    else none
  { body, query := (name.map (addName r.query)).getD r.query }

/-- What the body of a handler reads. -/
def request (context : Option String) (body : Cursor) : Infer Request :=
  body.walk.foldlM (fun r c =>
    match c.kind with
    | .variableDeclarator => readDeclarator context r c
    | .callExpression => return readCall context r c
    | _ => return r) ⟨none, ⟨[], []⟩⟩

/-- The query, if it has any parameter. -/
def Request.query? (r : Request) : Option Route.Query :=
  if r.query.properties.isEmpty then none else some r.query

end RouteScribe.Handler
