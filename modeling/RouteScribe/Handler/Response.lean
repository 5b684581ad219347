import RouteScribe.Route.Record
import RouteScribe.Typing.Answer

/-!
# Responses of handlers

The calls in the body of a handler that send a response: `json`, `text`, `html`, `body`, `notFound`
and `redirect` on the context, and `return new Response(body, init)`.  Each gives one response per
status code that is known.
-/

namespace RouteScribe.Handler

open Source Typing

/-! ## Bytes -/

/-- Types of raw bytes, streams, files and forms. -/
def binaryNames : List String :=
  ["ArrayBuffer", "SharedArrayBuffer", "Uint8Array", "Uint8ClampedArray", "Int8Array", "Int16Array",
   "Uint16Array", "Int32Array", "Uint32Array", "BigInt64Array", "BigUint64Array", "Float32Array",
   "Float64Array", "ReadableStream", "Blob", "File", "FormData"]

/-- Texts that show a type of raw bytes wherever they stand in a displayed type. -/
def binaryMarks : List String :=
  ["ArrayBuffer", "Uint8Array", "Int8Array", "Float32Array", "Float64Array", "Big64Array",
   "BigUint64Array"]

/-- Whether a list stands in another as one piece. -/
def occursIn (piece : List Char) : List Char → Bool
  | [] => piece.isEmpty
  | c :: rest => piece.isPrefixOf (c :: rest) || occursIn piece rest

/-- A displayed type that shows raw bytes. -/
def isBinaryText (text : String) : Bool :=
  let cs := text.toList
  let stream := "ReadableStream<".toList
  let isStream := stream.isPrefixOf cs && cs.getLast? == some '>' && !cs.contains '\n'
  text == "ReadableStream" || isStream || binaryMarks.any fun m => occursIn m.toList cs

/-- Whether a type that is no union stands for raw bytes. -/
def isBinaryAlone (t : Ty) : Infer Bool := do
  match ← symbolName? t with
  | none => return false
  | some name => if binaryNames.contains name then return true else return isBinaryText (← display t)

/-- Whether a type, or a member of it, stands for raw bytes. -/
def isBinary (t : Ty) : Infer Bool := t.alternatives.anyM isBinaryAlone

/-! ## Contexts, statuses and media types -/

/-- Whether an expression is the context of a handler, whose name is given, or a member of it. -/
def isContext (name : Option String) (c : Cursor) : Bool :=
  match name with
  | none => true
  | some name =>
    let isName (c : Cursor) : Bool := c.kind == .identifier && c.text == name
    let base := c.unwrap
    isName base || base.kind == .memberExpression && base.object?.any fun o => isName o.unwrap

/-- The integers among numbers, each once. -/
def distinctIntegers (numbers : List Numeral) : List Int :=
  (numbers.filterMap Numeral.int?).foldl (fun ns n => if ns.contains n then ns else ns ++ [n]) []

/-- The status codes that an expression can take: a literal without its fraction, the value of a
member of an enumeration, or the literals of its type. -/
def statuses (c : Cursor) : Infer (List Int) := do
  let base := c.unwrap
  if base.kind == .number then
    match (← typeOf base).numericValue? with
    | none => return []
    | some n =>
      match n.truncate? with
      | some code => return [code]
      | none => throw .infiniteStatus
  else
    let member ← if base.kind == .memberExpression then
        Infer.ofNumbers (enumMemberValue? base)
      else pure none
    match member with
    | some (.number (.exact code)) => return [code]
    | _ => return distinctIntegers ((← typeOf base).alternatives.filterMap Ty.numericValue?)

/-- The string at the end of a chain of variables, or the only value of the type of a name that has
no initial value. -/
def stringOf? (c : Cursor) : Infer (Option String) := do
  match c.follow with
  | .string s => return some s
  | .other => return none
  | .name n => return (← typeOf n).stringValue?

/-- A text that is not empty. -/
def nonEmpty? (s : Option String) : Option String := s.filter (· != "")

/-- The value of a property of an object literal. -/
def option? (options : Option Cursor) (name : String) : Option Cursor := do
  let options ← options
  if options.kind != .object then none
  let pair ← options.named.find? fun p =>
    p.kind == .pair && (p.child? .key).bind Cursor.memberKey? == some name
  pair.child? .value

/-- The media type that is given to a new blob or file. -/
def blobMediaType? (c : Option Cursor) : Infer (Option String) := do
  match c.map Cursor.unwrap with
  | none => return none
  | some base =>
    let name := ((base.child? .constructed).map Cursor.text).getD ""
    if base.kind != .newExpression || !(["Blob", "File"].contains name) then return none
    let index := if name == "File" then 2 else 1
    match option? base.callArguments[index]? "type" with
    | some value => stringOf? value
    | none => return none

/-- A name of the header for the media type. -/
def isContentType (name : String) : Bool := name.toLower == "content-type"

/-- The media type that a call of `header` on the context sets. -/
def headerMediaType? (context : Option String) (c : Cursor) : Infer (Option String) := do
  if c.kind != .callExpression then return none
  match c.calledMember?, c.callArguments with
  | some ("header", object), key :: value :: _ =>
    let base := object.unwrap
    let own := context.all fun name => base.kind == .identifier && base.text == name
    if own && key.stringValue?.any isContentType then return nonEmpty? (← stringOf? value)
    else return none
  | _, _ => return none

/-- The media type that the last call of `header` in a body sets. -/
def explicitMediaType? (context : Option String) (body : Cursor) : Infer (Option String) := do
  let found ← body.walk.mapM (headerMediaType? context)
  return found.reverse.findSome? id

/-- The media type among the headers of a new response. -/
def initMediaType? (init : Option Cursor) : Infer (Option String) := do
  match option? init "headers" with
  | none => return none
  | some headers =>
    if headers.kind != .object then return none
    let pair := headers.named.find? fun p =>
      p.kind == .pair && ((p.child? .key).bind Cursor.memberKey?).any isContentType
    match pair.bind (·.child? .value) with
    | some value => stringOf? value
    | none => return none

/-! ## Responses -/

/-- One response per status code, or one with the default if no code is known. -/
def perStatus (codes : List Int) (default : Option Int) (r : Route.Response) :
    List Route.Response :=
  match codes with
  | [] => [{ r with status := default }]
  | _ => codes.map fun code => { r with status := some code }

/-- A response about which nothing is known. -/
def bare : Route.Response :=
  { status := none, content := none, mediaType := none, headers := .given [], typeText := none }

/-- The response of a call on the context with the given name. -/
def contextResponse (explicit : Option String) (name : String) (value : Option Cursor)
    (codes : List Int) : Infer (List Route.Response) := do
  match name with
  | "json" =>
    match value with
    | none => return []
    | some value =>
      let t ← typeOf value
      let content ← schemaOf t
      let text ← display t
      return perStatus codes none
        { bare with content := some content, typeText := some text
                    mediaType := some (explicit.getD "application/json") }
  | "text" =>
    return perStatus codes none
      { bare with content := some .text, mediaType := some (explicit.getD "text/plain") }
  | "html" =>
    return perStatus codes none
      { bare with content := some .text, mediaType := some (explicit.getD "text/html") }
  | "body" =>
    let given ← match explicit with
      | some m => pure (some m)
      | none => pure (nonEmpty? (← blobMediaType? value))
    let isText ← match value with
      | some value => pure (← typeOf value).isStringLike
      | none => pure false
    if isText then
      return perStatus codes none
        { bare with content := some .text, mediaType := some (explicit.getD "text/plain") }
    else
      return perStatus codes none
        { bare with content := some .binary
                    mediaType := some (given.getD "application/octet-stream") }
  | "notFound" =>
    let own ← match value with
      | some value => statuses value
      | none => pure []
    return perStatus own (some 404) bare
  | "redirect" => return perStatus codes (some 302) { bare with headers := .location }
  | _ => return []

/-- The responses of a call, if it is made on the context.  Calls on the request only read. -/
def callResponses (context explicit : Option String) (c : Cursor) :
    Infer (List Route.Response) := do
  match c.calledMember? with
  | none => return []
  | some (name, receiver) =>
    if receiver.unwrap.memberName? == some "req" || !isContext context receiver then return []
    let args := c.callArguments
    let codes ← match args[1]? with
      | some code => statuses code
      | none => pure []
    contextResponse explicit name args.head? codes

/-- The schema of the body of a new response. -/
def constructedContent? (body : Cursor) : Infer (Option Schema) := do
  let t ← typeOf body
  if t.isStringLike then return some .text
  let isBytes ← if ← isBinary t then pure true
    else pure (nonEmpty? (← blobMediaType? (some body))).isSome
  if isBytes then return some .binary
  else if t.isAny || t.isNullish then return none
  else return some (← schemaOf t)

/-- The responses of a statement that returns a new response. -/
def returnedResponses (explicit : Option String) (c : Cursor) : Infer (List Route.Response) := do
  match c.named.head?.map Cursor.unwrap with
  | none => return []
  | some base =>
    let name := (base.child? .constructed).map Cursor.text
    if base.kind != .newExpression || name != some "Response" then return []
    let args := base.callArguments
    let init := args[1]?
    let mediaType := nonEmpty? (← initMediaType? init) <|> explicit
    let codes ← match option? init "status" with
      | some code => statuses code
      | none => pure []
    let content ← match args.head? with
      | some body => constructedContent? body
      | none => pure none
    return perStatus codes (some 200) { bare with content, mediaType }

/-- All responses that the body of a handler sends, in the order of the text. -/
def responses (context : Option String) (body : Cursor) : Infer (List Route.Response) := do
  let explicit ← explicitMediaType? context body
  let found ← body.walk.mapM fun c =>
    match c.kind with
    | .callExpression => callResponses context explicit c
    | .returnStatement => returnedResponses explicit c
    | _ => return []
  return found.flatten

end RouteScribe.Handler
