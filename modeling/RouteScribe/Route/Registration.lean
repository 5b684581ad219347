import RouteScribe.Handler.Request
import RouteScribe.Handler.Response
import RouteScribe.Route.Template
import RouteScribe.Source.Program

/-!
# Registrations of routes

A call registers a route when it calls a member named after an HTTP method and its first argument is
a string.  Under the stricter policy the receiver must also have the type of a router.
-/

namespace RouteScribe.Route

open Source Typing

/-- Which calls count as registrations. -/
structure Policy where
  /-- The types of routers, if the receiver must be one. -/
  routerTypes : Option (List String)
  deriving Repr

/-- Every call with the right shape counts. -/
def Policy.any : Policy := ⟨none⟩

/-- The types of routers that are known without being told. -/
def knownRouterTypes : List String := ["Hono", "OpenAPIHono"]

/-- The method and the path that a call registers. -/
def registration? (c : Cursor) : Option (Method × String) := do
  if c.kind != .callExpression then none
  let (name, _) ← c.calledMember?
  let method ← Method.ofName? name
  let path ← (← c.callArguments.head?).stringValue?
  return (method, path)

/-- Calls that give back the router they are made on. -/
def chainingNames : List String :=
  Method.all.map Method.name ++ ["all", "on", "use", "route", "basePath", "onError", "notFound"]

/-- What a chain of calls that give back the router starts with; the first argument bounds the
length of the chain. -/
def chainStart? : Nat → Cursor → Option Cursor
  | 0, _ => none
  | n + 1, c =>
    if c.kind != .callExpression then some c
    else
      match c.calledMember? with
      | none => none
      | some (name, receiver) =>
        if chainingNames.contains name then chainStart? n receiver.unwrap else none

/-- Whether the type of the receiver is that of a router. -/
def isRouter (types : List String) (receiver : Cursor) : Infer Bool := do
  match chainStart? (receiver.node.size + 1) receiver.unwrap with
  | none => return false
  | some start => return (← symbolName? (← typeOf start)).any types.contains

/-- The handler of a registration: the last argument after the path that is a function. -/
def handler? (c : Cursor) : Option Cursor := (c.callArguments.drop 1).reverse.findSome? Cursor.function?

/-- Whether a registration counts under a policy. -/
def Policy.admits (p : Policy) (c : Cursor) : Infer Bool :=
  match p.routerTypes, c.calledMember? with
  | none, _ => return true
  | some types, some (_, receiver) => isRouter types receiver
  | some _, none => return false

/-- The record of a registration. -/
def recordOf (method : Method) (path : String) (c : Cursor) : Infer Record := do
  let handler := handler? c
  let context := handler.bind Cursor.firstParameter?
  let (responses, request) ← match handler.bind (·.child? .body) with
    | some body => do
      let responses ← Handler.responses context body
      pure (responses, ← Handler.request context body)
    | none => pure ([], ⟨none, ⟨[], []⟩⟩)
  return {
    method, path
    params := params path
    responseTypeText := responses.head?.bind (·.typeText)
    responseSchema := responses.head?.bind (·.content)
    requestBody := request.body
    query := request.query?
    responses
    scopes := none }

/-- The records of the registrations of a file, in the order of the text. -/
def recordsOf (p : Policy) (root : Cursor) : Infer (List Record) := do
  let found ← root.walk.mapM fun c => do
    match registration? c with
    | none => return []
    | some (method, path) =>
      if ← p.admits c then return [← recordOf method path c] else return []
  return found.flatten

/-- The routes that a parsed source registers, by queries that ask further queries to a depth. -/
def analyzeTo (depth : Nat) (p : Policy) (program : Node) : Except Failure (List Record) :=
  let root := Cursor.ofRoot program
  ((recordsOf p root).runOn depth root .empty).1

/-- The routes that a parsed source registers. -/
def analyze (p : Policy) (program : Node) : Except Failure (List Record) :=
  analyzeTo depthBound p program

end RouteScribe.Route
