import RouteScribe.Source.Reader

/-!
# The grammar of types and parameters

Type expressions, from unions down to literals, and the parameters that carry them.
Each definition is the body of a rule: `self` reads the rules it refers to.
-/

namespace RouteScribe.Source.Grammar

open Read

variable (self : Rules)

/-! ## Literals -/

/-- A string between quotes. -/
def stringLiteral : Read Node := do
  let quote ← peek
  if quote != '\x22' && quote != '\x27' then failure
  toLexeme
  let i ← get
  let cs := (← read).chars
  match stringEnd? cs quote (cs.size + 1) (i + 1) with
  | some j =>
    set j
    leaf .string i j
  | none => failure

/-- A number. -/
def numberLiteral : Read Node := do
  toLexeme
  let i ← get
  match numberEnd? (← read).chars i with
  | some j =>
    set j
    leaf .number i j
  | none => failure

/-- A template: text between backquotes, with `hole` between `$` and braces. -/
def templateOf (kind holeKind : Kind) (escapes : Bool) (hole : Read Node) : Read Node := do
  if (← peek) != '\x60' then failure
  toLexeme
  let start ← get
  set (start + 1)
  let cs := (← read).chars
  let chars : Read Unit := do
    match templateCharsEnd? cs escapes (cs.size + 1) (← get) with
    | some j => set j
    | none => failure
  chars
  let holes ← many (do
    let i ← get
    if charAt cs i != '$' then failure
    set (i + 2)
    let opening ← leaf .token i (i + 2)
    let x ← enclosed hole
    let closing ← symbol closeBrace
    chars
    make holeKind [opening, x, closing])
  let stop ← get
  if charAt cs stop != '\x60' then failure
  set (stop + 1)
  return ⟨kind, .plain, start, stop + 1, ← slice start (stop + 1), holes⟩

/-! ## Names -/

/-- The name of a property: a word, a string, a number, a private name, or an expression in
brackets. -/
def propertyName : Read Node := do
  let c ← peek
  if c == '\x22' || c == '\x27' then stringLiteral
  else if c == '[' then
    let opening ← symbol "["
    let x ← enclosed (self .expression)
    make .computedName [opening, x, ← symbol "]"]
  else if c == '#' then
    toLexeme
    let i ← get
    match wordEnd? (← read).chars (i + 1) with
    | some j =>
      set j
      leaf .privateName i j
    | none => failure
  else if c.isDigit || c == '.' then numberLiteral
  else wordOf .propertyName

/-- A word that changes what follows, if the name of a member can follow it. -/
def modifier (words : List String) : Read Node := do
  let w ← oneWord words
  let c ← peek
  if isWordStart c || c.isDigit || "\x22'[#*\\".toList.contains c then
    if ["public", "private", "protected"].contains w.text then make .accessModifier [w]
    else if w.text == "override" then make .overrideModifier [w]
    else return w
  else failure

/-! ## Annotations and parameters -/

/-- A colon and a type. -/
def ascription : Read Node := do
  let c ← symbol ":"
  make .ascription [c, ← self .type]

/-- A type of the form `x is T`. -/
def typePredicate : Read Node := do
  let name ← as .name (wordOf .identifier)
  let w ← word "is"
  make .typePredicate [name, w, ← as .type (self .type)]

/-- What a function asserts about its argument. -/
def assertion : Read Node := do
  let w ← word "asserts"
  make .asserts [w, ← typePredicate self <|> wordOf .identifier]

/-- The result type of a function, after a colon. -/
def resultAscription : Read Node := do
  let c ← symbol ":"
  let asserts : Read Node := do make .assertsAscription [c, ← assertion self]
  let predicate : Read Node := do make .predicateAscription [c, ← typePredicate self]
  let plain : Read Node := do make .ascription [c, ← self .type]
  asserts <|> predicate <|> plain

/-- An equals sign and a value. -/
def initializer : Read (List Node) := do
  let eq ← operator "="
  return [eq, ← as .value (self .expression)]

/-- The parts of a function before its body: type parameters, parameters and result type. -/
def callSignature : Read (List Node) := do
  let generics ← maybe (self .typeParameters)
  let params ← as .parameters (self .formalParameters)
  let result ← maybe (as .returnType (resultAscription self))
  return generics ++ [params] ++ result

/-- One type parameter. -/
def typeParameter : Read Node := do
  let constant ← maybe (do
    let w ← word "const"
    if isWordStart (← peek) then return w else failure)
  let name ← as .name (wordOf .typeName)
  let bound ← maybe (do
    let w ← word "extends" <|> symbol ":"
    make .constraint [w, ← self .type])
  let preset ← maybe (do
    let eq ← operator "="
    make .defaultType [eq, ← self .type])
  make .typeParameter (constant ++ [name] ++ bound ++ preset)

/-- A list between angle brackets. -/
def angled (kind : Kind) (item : Read Node) : Read Node := do
  let opening ← symbol "<"
  let items ← enclosed (commaSep1 item)
  let comma ← maybe (symbol ",")
  make kind ([opening] ++ items ++ comma ++ [← symbol ">"])

/-- The parameters of a generic declaration. -/
def typeParameters : Read Node := angled .typeParameters (typeParameter self)

/-- The types given to a generic. -/
def typeArguments : Read Node := angled .typeArguments (self .type)

/-- One parameter of a function. -/
def parameter : Read Node := do
  let decorators ← many (self .decorator)
  let modifiers ← many (do
    let w ← oneWord ["public", "private", "protected", "override", "readonly"]
    let c ← peek
    if isWordStart c || c == '{' || c == '[' then
      if w.text == "override" then make .overrideModifier [w]
      else if w.text == "readonly" then return w
      else make .accessModifier [w]
    else failure)
  let target ← as .pattern (self .pattern)
  let mark ← maybe (symbol "?")
  let type ← maybe (as .type (ascription self))
  let value ← maybe (initializer self)
  let kind := if mark.isEmpty then Kind.requiredParameter else .optionalParameter
  make kind (decorators ++ modifiers ++ [target] ++ mark ++ type ++ value.flatten)

/-- The parameters of a function. -/
def formalParameters : Read Node := do
  let opening ← symbol "("
  let params ← enclosed (maybe (do
    let ps ← commaSep1 (parameter self)
    return ps ++ (← maybe (symbol ","))))
  make .formalParameters ([opening] ++ params.flatten ++ [← symbol ")"])

/-! ## Types -/

/-- A name of a type: plain or with modules in front. -/
def typePath : Read Node := do
  let first ← wordOf .typeName
  let more ← many (do
    let dot ← operator "."
    return (dot, ← wordOf .typeName))
  match more.reverse with
  | [] => return first
  | (dot, last) :: inner => do
    let base : Node := { first with kind := .identifier }
    let mut path := base
    for (d, part) in inner.reverse do
      path ← make .nestedName [path.withRole .object, d,
        { part with kind := .propertyName, role := .property }]
    make .nestedTypeName [path, dot, last.withRole .name]

/-- The end of a named type: the types given to it. -/
def namedType : Read Node := do
  let name ← typePath
  if (← peek) == '<' then
    match ← optional (self .typeArguments) with
    | some args => make .genericType [name.withRole .name, args.withRole .typeArguments]
    | none => return name
  else return name

/-- What a member of an imported module or a queried value is called on. -/
def pathStep (calls : Bool) (base : Node) : Read Node := do
  let member : Read Node := do
    let dot ← operator "." <|> operator "?."
    let name ← if (← peek) == '#' then self .propertyName else wordOf .propertyName
    make .memberExpression [base.withRole .object, dot, name.withRole .property]
  let call : Read Node := do
    if calls && (← peek) == '(' then
      make .callExpression [base.withRole .callee, ← as .arguments (self .arguments)]
    else failure
  member <|> call

/-- A path of members. -/
def pathSteps (calls : Bool) : Nat → Node → Read Node
  | 0, base => return base
  | n + 1, base => do
    match ← optional (pathStep self calls base) with
    | some next => pathSteps calls n next
    | none => return base

/-- A type in another module: `import` with the name of the module, and a path in it. -/
def importedPath : Read Node := do
  let w ← word "import"
  let base ← make .import [w]
  let call ← make .callExpression [base.withRole .callee, ← as .arguments (self .arguments)]
  pathSteps self false ((← read).chars.size) call

/-- The type of a value. -/
def typeQuery : Read Node := do
  let w ← word "typeof"
  let plain : Read Node := do
    let n ← wordOf .identifier
    pathSteps self true ((← read).chars.size)
      (if n.text == "this" then { n with kind := .this } else n)
  let target ← importedPath self <|> plain
  match ← optional (self .typeArguments) with
  | some args =>
    let inner ← make .instantiation [target, args.withRole .typeArguments]
    make .typeQuery [w, inner]
  | none => make .typeQuery [w, target]

/-- The end of a mapped or indexed member: its type, which may be marked as optional. -/
def indexAscription : Read Node := do
  let marked (mark : String) (kind : Kind) : Read Node := do
    let t ← symbol mark
    make kind [t, ← self .type]
  marked "?:" .optionalAscription <|> marked "-?:" .omittingAscription
    <|> marked "+?:" .addingAscription <|> ascription self

/-- A member with a key in brackets that stands for many names. -/
def indexSignature : Read Node := do
  let lead ← maybe (do
    let sign ← maybe (symbol "-" <|> symbol "+")
    return sign ++ [← word "readonly"])
  let opening ← symbol "["
  let named : Read (List Node) := do
    let name ← as .name (wordOf .identifier)
    let c ← symbol ":"
    return [name, c, ← as .index (enclosed (self .type))]
  let mapped : Read (List Node) := do
    let name ← as .name (wordOf .typeName)
    let w ← word "in"
    let type ← as .type (enclosed (self .type))
    let renamed ← maybe (do
      let a ← word "as"
      return [a, ← enclosed (self .type)])
    return [← make .mappedTypeClause ([name, w, type] ++ renamed.flatten)]
  let key ← named <|> mapped
  let closing ← symbol "]"
  make .indexSignature
    (lead.flatten ++ [opening] ++ key ++ [closing, ← as .type (indexAscription self)])

/-- A member that says how values are constructed. -/
def constructSignature : Read Node := do
  let abstr ← maybe (word "abstract")
  let w ← word "new"
  let generics ← maybe (self .typeParameters)
  let params ← as .parameters (self .formalParameters)
  let type ← maybe (as .type (ascription self))
  make .constructSignature (abstr ++ [w] ++ generics ++ [params] ++ type)

/-- A member with a name: a property or a method. -/
def namedSignature : Read Node := do
  let modifiers ← many (modifier
    ["public", "private", "protected", "static", "override", "readonly", "async", "get", "set"])
  let star ← maybe (symbol "*")
  let name ← as .name (self .propertyName)
  let mark ← maybe (symbol "?")
  let front := modifiers ++ star ++ [name] ++ mark
  let c ← peek
  if c == '(' || c == '<' then make .methodSignature (front ++ (← callSignature self))
  else make .propertySignature (front ++ (← maybe (as .type (ascription self))))

/-- One member of an object type. -/
def objectTypeMember : Read Node := do
  let c ← peek
  if c == '(' || c == '<' then make .callSignature (← callSignature self)
  else
    match ← optional (indexSignature self) with
    | some n => return n
    | none =>
      match ← optional (constructSignature self) with
      | some n => return n
      | none => if (← peekWord) == "abstract" then failure else namedSignature self

/-- What stands between two members of an object type. -/
def memberSeparator : Read (List Node) := do
  match ← optional (symbol ",") with
  | some t => return [t]
  | none => semicolon false

/-- Members between braces. -/
def objectType (kind : Kind) : Read Node := do
  let opening ← symbol (openBrace ++ "|") <|> symbol openBrace
  let lead ← maybe (symbol "," <|> symbol ";")
  let member := endable (objectTypeMember self)
  let members ← maybe (do
    let first ← member
    let more ← many (do
      let s ← memberSeparator
      return s ++ [← member])
    let last ← maybe memberSeparator
    return first :: more.flatten ++ last.flatten)
  make kind ([opening] ++ lead ++ members.flatten ++ [← symbol ("|" ++ closeBrace) <|> symbol closeBrace])

/-- One member of a tuple type. -/
def tupleMember : Read Node := do
  let labelled : Read Node := do
    let dots ← optional (operator "...")
    let name ← wordOf .identifier
    let name ← match dots with
      | some d => make .restPattern [d, name]
      | none => pure name
    let mark ← if dots.isNone then maybe (symbol "?") else pure []
    let type ← as .type (ascription self)
    make (if mark.isEmpty then .requiredParameter else .optionalParameter)
      ([name.withRole .name] ++ mark ++ [type])
  let rest : Read Node := do
    let dots ← operator "..."
    make .restType [dots, ← self .type]
  let plain : Read Node := do
    let t ← self .type
    match ← optional (symbol "?") with
    | some q => make .optionalType [t, q]
    | none => return t
  labelled <|> rest <|> plain

/-- A list of types between brackets. -/
def tupleType : Read Node := do
  let opening ← symbol "["
  let members ← enclosed (maybe (do
    let ms ← commaSep1 (tupleMember self)
    return ms ++ (← maybe (symbol ","))))
  let lone ← if members.isEmpty then maybe (symbol ",") else pure []
  make .tupleType ([opening] ++ members.flatten ++ lone ++ [← symbol "]"])

/-- A type that needs no brackets, without what may follow it. -/
def plainType : Read Node := do
  let c ← peek
  if c == '(' then
    let opening ← symbol "("
    let t ← enclosed (self .type)
    make .parenthesizedType [opening, t, ← symbol ")"]
  else if c == '{' then objectType self .objectType
  else if c == '[' then tupleType self
  else if c == '\x22' || c == '\x27' then make .literalType [← stringLiteral]
  else if c == '\x60' then
    let infer : Read Node := do
      let w ← word "infer"
      make .inferType [w, ← wordOf .typeName]
    templateOf .templateLiteralType .templateType false (infer <|> self .primaryType)
  else if c == '-' || c == '+' then
    let sign ← operator "-" <|> operator "+"
    let n ← numberLiteral
    make .literalType [← make .unaryExpression [sign.withRole .operator, n.withRole .argument]]
  else if c.isDigit || c == '.' then make .literalType [← numberLiteral]
  else if c == '*' then return { ← symbol "*" with kind := .existentialType }
  else if c == '?' then
    let q ← symbol "?"
    make .maybeType [q, ← self .primaryType]
  else
    let w ← peekWord
    let literal (kind : Kind) : Read Node := do make .literalType [← wordOf kind]
    if ["any", "number", "boolean", "string", "symbol", "void", "unknown", "never",
        "object"].contains w then wordOf .predefinedType
    else if w == "unique" then
      make .predefinedType [← word "unique", ← word "symbol"]
    else if w == "null" then literal .nullLiteral
    else if w == "undefined" then literal .undefinedLiteral
    else if w == "true" then literal .trueLiteral
    else if w == "false" then literal .falseLiteral
    else if w == "this" then wordOf .thisType
    else if w == "const" then word "const"
    else if w == "typeof" then typeQuery self
    else if w == "keyof" then
      let k ← word "keyof"
      make .indexTypeQuery [k, ← self .primaryType]
    else if ["readonly", "infer", "new", "abstract", "import"].contains w then failure
    else namedType self

/-- The brackets after a type: an array of it, or the type of one of its members. -/
def typeBrackets : Nat → Node → Read Node
  | 0, t => return t
  | n + 1, t => do
    if ← typeGoesOn then
      let step : Read Node := do
        let opening ← symbol "["
        match ← optional (symbol "]") with
        | some closing => make .arrayType [t, opening, closing]
        | none =>
          let index ← enclosed (self .type)
          make .lookupType [t, opening, index, ← symbol "]"]
      match ← optional step with
      | some next => typeBrackets n next
      | none => return t
    else return t

/-- A type without operators. -/
def primaryType : Read Node := do
  typeBrackets self ((← read).chars.size) (← plainType self)

/-- A type of functions. -/
def functionType : Read Node := do
  let generics ← maybe (self .typeParameters)
  let params ← as .parameters (self .formalParameters)
  let arrow ← operator "=>"
  let result ← assertion self <|> typePredicate self <|> self .type
  make .functionType (generics ++ [params, arrow, result.withRole .returnType])

/-- An operand of a union or an intersection. -/
def typeOperand : Read Node := do
  let c ← peek
  if c == '(' || c == '<' then
    match ← optional (functionType self) with
    | some t => return t
    | none => self .primaryType
  else
    let w ← peekWord
    if w == "readonly" then
      let r ← word "readonly"
      make .readonlyType [r, ← self .type]
    else if w == "infer" then
      let i ← word "infer"
      let name ← wordOf .typeName
      let bound ← maybe (do
        let e ← word "extends"
        return [e, ← self .type])
      make .inferType ([i, name] ++ bound.flatten)
    else if w == "new" || w == "abstract" then
      let abstr ← maybe (word "abstract")
      let n ← word "new"
      let generics ← maybe (self .typeParameters)
      let params ← as .parameters (self .formalParameters)
      let arrow ← operator "=>"
      make .constructorType
        (abstr ++ [n] ++ generics ++ [params, arrow, ← as .type (self .type)])
    else if w == "import" then importedPath self
    else self .primaryType

/-- Operands with one operator between them, and perhaps in front of them; they nest to the
left. -/
def leftNested (kind : Kind) (op : String) (operand : Read Node) : Read Node := do
  let lead ← optional (operator op)
  let first ← operand
  let first ← match lead with
    | some t => make kind [t, first]
    | none => pure first
  let more ← many (do
    if ← typeGoesOn then
      let t ← operator op
      return (t, ← operand)
    else failure)
  more.foldlM (fun left (t, right) => make kind [left, t, right]) first

/-- A type. -/
def type : Read Node := do
  let left ← leftNested .unionType "|" (leftNested .intersectionType "&" (typeOperand self))
  let choice : Read Node := do
    if !(← typeGoesOn) then failure
    let w ← word "extends"
    let right ← as .right (enclosed (self .type))
    let q ← symbol "?"
    let yes ← as .consequence (enclosed (self .type))
    let c ← symbol ":"
    make .conditionalType
      [left.withRole .left, w, right, q, yes, c, ← as .alternative (self .type)]
  choice <|> return left

end RouteScribe.Source.Grammar
