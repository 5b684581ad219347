import RouteScribe.Typing.Denotation

/-!
# The types of expressions

Types of expressions as far as one file shows them: literals, declared names, members of objects and
enumerations, calls of functions of the file, and calls that read the request.
-/

namespace RouteScribe.Typing

open Source

variable (ask : Answers)

/-- The type of an expression, or any type if there is none. -/
def typeOf? (c : Option Cursor) : Infer Ty :=
  match c with
  | some c => ask _ (.typeOf c)
  | none => return .any

/-- The type of a name. -/
def nameType (c : Cursor) : Infer Ty := do
  if c.text == "undefined" then return .undefined
  match c.declaration? with
  | none => return .any
  | some d =>
    match d.kind with
    | .variableDeclarator =>
      match d.child? .type, d.child? .value with
      | some annotation, _ => ask _ (.denoted annotation)
      | none, none => return .any
      | none, some value => do
        let t ← ask _ (.typeOf value)
        if d.declarationKeyword == "const" then return t else widen ask t
    | .requiredParameter =>
      match d.child? .type with
      | some annotation => ask _ (.denoted annotation)
      | none => return .any
    | .optionalParameter =>
      match d.child? .type with
      | some annotation => do withUndefined ask (← ask _ (.denoted annotation))
      | none => return .any
    | .enumDeclaration | .classDeclaration => return .named ("typeof " ++ c.text) []
    | kind => return if kind.isFunction then .someFunction else .any

/-! ## Objects and members -/

/-- The properties that one member of an object literal gives. -/
def literalMember (m : Cursor) : Infer (List Property) := do
  let property (name : String) (type : Ty) : Property := { name, optional := false, type }
  match m.kind with
  | .pair =>
    match (m.child? .key).bind Cursor.memberKey? with
    | none => return []
    | some name => return [property name (← widen ask (← typeOf? ask (m.child? .value)))]
  | .shorthandProperty =>
    return [property m.text (← widen ask (← nameType ask m))]
  | .methodDefinition =>
    return ((m.child? .name).bind Cursor.memberKey?).toList.map fun name =>
      property name .someFunction
  | .spread => do propertiesOf ask (← typeOf? ask m.named.head?)
  | _ => return []

/-- The type of an object literal. -/
def objectLiteralType (c : Cursor) : Infer Ty := do
  let properties ← c.named.mapM (literalMember ask)
  newObject none (.known (mergeProperties properties.flatten))

/-- The type of an array literal. -/
def arrayLiteralType (c : Cursor) : Infer Ty := do
  let elements := c.named.filter (·.kind != .spread)
  if elements.isEmpty then return .array .any
  let types ← elements.mapM fun e => do widen ask (← ask _ (.typeOf e))
  return .array (← makeUnion ask types)

/-- Whether `length` is the length of a string or of a list. -/
def hasLength (t : Ty) : Infer Bool := do
  if t.isStringLike then return true else return (← elementType? ask t).isSome

/-- The type of a member of a value. -/
def propertyType (target : Ty) (name : String) : Infer Ty := do
  let lengthOf ← if name == "length" then hasLength ask target else pure false
  if lengthOf then return .number
  let properties ← propertiesOf ask (← stripNullish ask target)
  match properties.find? (·.name == name) with
  | some p => return p.type
  | none => return target.mapValue?.getD .any

/-- The type of a member access. -/
def memberType (c : Cursor) : Infer Ty := do
  match c.member? with
  | none => return .any
  | some (name, object) =>
    match enumAccess? c with
    | some (declaration, member) => enumMemberType declaration member
    | none => propertyType ask (← ask _ (.typeOf object)) name

/-- The type of an element access. -/
def elementAccessType (c : Cursor) : Infer Ty := do
  let target ← typeOf? ask (c.child? .object)
  match ← elementType? ask target with
  | some t => return t
  | none => return target.mapValue?.getD .any

/-! ## Calls -/

/-- The result of a method that reads the request, depending on whether it is given an argument. -/
def requestResult? (method : String) (given : Bool) : Option Ty :=
  let texts : Ty := .array .string
  let maybe (t : Ty) : Ty := .union [t, .undefined]
  match method with
  | "param" => some (if given then .string else .map .string)
  | "query" | "header" => some (if given then maybe .string else .map .string)
  | "queries" => some (if given then maybe texts else .map texts)
  | "json" => some (.promise .any)
  | "text" => some (.promise .string)
  | "arrayBuffer" => some (.promise (.named "ArrayBuffer" []))
  | "blob" => some (.promise (.named "Blob" []))
  | "formData" => some (.promise (.named "FormData" []))
  | "parseBody" => some (.promise (.map .any))
  | _ => none

/-- Methods that give a string, whatever they are called on. -/
def stringMethods : List String :=
  ["toUpperCase", "toLowerCase", "trim", "trimStart", "trimEnd", "slice", "substring", "replace",
   "replaceAll", "padStart", "padEnd", "repeat", "concat", "toString", "toFixed", "toISOString",
   "join", "charAt", "normalize"]

/-- The result of a method of the receiver. -/
def methodResult (receiver : Cursor) (method : String) (given : Bool) : Ty :=
  let fromRequest := if receiver.memberName? == some "req" then requestResult? method given else none
  match fromRequest with
  | some t => t
  | none =>
    if receiver.text == "JSON" then if method == "stringify" then .string else .any
    else if receiver.text == "Math" then .number
    else if stringMethods.contains method then .string
    else .any

/-- The result of a function of the file: what it declares, or the type of the expression it gives
back. -/
def functionResult (callee : Cursor) : Infer Ty := do
  match callee.declaration?.bind Cursor.declaredFunction? with
  | none => return .any
  | some f =>
    match f.child? .returnType, f.child? .body with
    | some annotation, _ => ask _ (.denoted annotation)
    | none, none => return .any
    | none, some body =>
      if body.kind == .statementBlock then return .any
      else
        let t ← ask _ (.typeOf body)
        return if f.node.hasToken "async" then .promise t else t

/-- The type of a call. -/
def callType (c : Cursor) : Infer Ty := do
  match c.child? .callee with
  | none => return .any
  | some callee =>
    let callee := callee.unwrap
    match callee.kind with
    | .memberExpression =>
      match callee.member? with
      | some (method, object) =>
        return methodResult object.unwrap method (!c.callArguments.isEmpty)
      | none => return .any
    | .identifier =>
      match callee.text with
      | "String" => return .string
      | "Number" | "parseInt" | "parseFloat" => return .number
      | "Boolean" => return .boolean
      | _ => functionResult ask callee
    | _ => return .any

/-- The type of what is constructed. -/
def constructedType (c : Cursor) : Infer Ty := do
  let name := ((c.child? .constructed).map Cursor.text).getD ""
  let args ← typeArguments ask c
  if name == "Array" then return .array (args.head?.getD .any) else return .named name args

/-! ## Operators -/

/-- Operators that compare. -/
def comparisons : List String :=
  ["==", "===", "!=", "!==", "<", ">", "<=", ">=", "instanceof", "in"]

/-- Operators that compute a number. -/
def arithmetic : List String := ["-", "*", "/", "%", "**", "<<", ">>", ">>>", "&", "|", "^"]

/-- The type of two operands with an operator between them. -/
def binaryType (c : Cursor) : Infer Ty := do
  let op := ((c.child? .operator).map Cursor.text).getD ""
  let left := c.child? .left
  let right := c.child? .right
  if comparisons.contains op then return .boolean
  else if arithmetic.contains op then return .number
  else if op == "+" then
    let l ← typeOf? ask left
    let r ← typeOf? ask right
    if l.isStringLike || r.isStringLike then return .string
    else if l.isNumberLike && r.isNumberLike then return .number
    else return .any
  else if op == "||" || op == "??" then
    let l ← stripNullish ask (← typeOf? ask left)
    makeUnion ask [l, ← typeOf? ask right]
  else if op == "&&" then typeOf? ask right
  else return .any

/-- The type of an operand with an operator in front. -/
def unaryType (c : Cursor) : Infer Ty := do
  match ((c.child? .operator).map Cursor.text).getD "" with
  | "!" => return .boolean
  | "typeof" => return .string
  | "void" => return .undefined
  | _ =>
    match ← Infer.ofNumbers (negatedNumber? c) with
    | some n => return .literal (.number n)
    | none => return .number

/-- The type of a cast: the type it states, or that of the value if it states none. -/
def castType (c : Cursor) : Infer Ty :=
  match c.kind, c.named with
  | .typeAssertion, types :: _ => do
    match types.named.head? with
    | some t => ask _ (.denoted t)
    | none => return .any
  | _, _ :: type :: _ => ask _ (.denoted type)
  | _, [value] => ask _ (.typeOf value)
  | _, [] => return .any

/-- The type of an expression that is not being worked out already. -/
def expressionType (c : Cursor) : Infer Ty :=
  match c.kind with
  | .string | .templateString =>
    return (c.stringValue?.map fun s => Ty.literal (.string s)).getD .string
  | .number => do
    match ← Infer.ofNumbers (Numeral.read c.text) with
    | some n => return .literal (.number n)
    | none => return .number
  | .trueLiteral => return .literal (.boolean true)
  | .falseLiteral => return .literal (.boolean false)
  | .nullLiteral => return .null
  | .undefinedLiteral => return .undefined
  | .regex => return .named "RegExp" []
  | .identifier => nameType ask c
  | .parenthesized | .satisfiesExpression => typeOf? ask c.named.head?
  | .asExpression | .typeAssertion => castType ask c
  | .nonNullExpression => do stripNullish ask (← typeOf? ask c.named.head?)
  | .awaitExpression => do
    match ← typeOf? ask c.named.head? with
    | .promise inner => return inner
    | t => return t
  | .object => objectLiteralType ask c
  | .array => arrayLiteralType ask c
  | .memberExpression => memberType ask c
  | .subscriptExpression => elementAccessType ask c
  | .callExpression => callType ask c
  | .newExpression => constructedType ask c
  | .ternaryExpression => do
    let yes ← typeOf? ask (c.child? .consequence)
    makeUnion ask [yes, ← typeOf? ask (c.child? .alternative)]
  | .binaryExpression => binaryType ask c
  | .unaryExpression => unaryType c
  | .updateExpression => return .number
  | .assignment => typeOf? ask (c.child? .right)
  | .sequenceExpression => typeOf? ask c.named.getLast?
  | kind => return if kind.isFunction then .someFunction else .any

/-- The type of an expression; an expression inside the work on itself can have any type. -/
def resolvedType (c : Cursor) : Infer Ty := do
  if (← read).resolving.contains c.key then return .any
  else withReader (fun x => { x with resolving := c.key :: x.resolving }) (expressionType ask c)

end RouteScribe.Typing
