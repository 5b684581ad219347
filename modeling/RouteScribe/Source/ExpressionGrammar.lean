import RouteScribe.Source.TypeGrammar

/-!
# The grammar of expressions

Operands and what is chained to them, the patterns that values are taken apart with, and operators by
how tightly they bind.  What is written
behind an operand may take operators to its left with it:

* A postfix `!` and a cast with `as` or `satisfies` take all of them up to the nearest `await`,
  `yield`, assignment, conditional, arrow or right side of `**`: `a + b!` is `(a + b)!`, and
  `await x as T` is `await (x as T)`.
* A call with types in angle brackets takes `await`, the operators in front of an operand, and those
  that bind more tightly than a comparison: `await f<T>(x)` is `(await f)<T>(x)`.
-/

namespace RouteScribe.Source.Grammar

open Read

variable (self : Rules)

/-! ## Literals with parts -/

/-- Three dots and an expression. -/
def spread : Read Node := do
  let dots ← operator "..."
  make .spread [dots, ← self .expression]

/-- The front of a method: words that change it, and its name. -/
def methodFront (words : List String) : Read (List Node) := do
  let modifiers ← many (modifier words)
  let star ← maybe (symbol "*")
  let name ← as .name (self .propertyName)
  let mark ← maybe (symbol "?")
  let c ← peek
  if c == '(' || c == '<' then return modifiers ++ star ++ [name] ++ mark else failure

/-- One member of an object. -/
def objectMember : Read Node := do
  if (← peek) == '.' then
    match ← optional (spread self) with
    | some n => return n
    | none => pure ()
  let head ← optional (do
    let name ← self .propertyName
    return (name, ← symbol ":"))
  match head with
  | some (name, c) =>
    make .pair [name.withRole .key, c, ← as .value (self .expression)]
  | none =>
    let front ← optional (methodFront self
      ["public", "private", "protected", "static", "override", "readonly", "async", "get", "set"])
    match front with
    | some front =>
      let signature ← callSignature self
      make .methodDefinition (front ++ signature ++ [← as .body (self .block)])
    | none => wordOf .shorthandProperty

/-- Members between braces. -/
def object : Read Node := do
  let opening ← symbol openBrace
  let members ← enclosed (commaSepHoles (objectMember self))
  make .object ([opening] ++ members ++ [← symbol closeBrace])

/-- Expressions between brackets. -/
def array : Read Node := do
  let opening ← symbol "["
  let items ← enclosed (commaSepHoles (spread self <|> self .expression))
  make .array ([opening] ++ items ++ [← symbol "]"])

/-- The arguments of a call. -/
def arguments : Read Node := do
  let opening ← symbol "("
  let items ← enclosed (commaSepHoles (spread self <|> self .expression))
  make .arguments ([opening] ++ items ++ [← symbol ")"])

/-- A template with expressions in it. -/
def templateString : Read Node :=
  templateOf .templateString .templateSubstitution true (self .expressions)

/-- A regular expression between slashes, with its flags. -/
def regexLiteral : Read Node := do
  if (← peek) != '/' then failure
  toLexeme
  let i ← get
  let cs := (← read).chars
  match regexEnd? cs false (cs.size + 1) (i + 1) with
  | some j =>
    let k := spanEnd cs Char.isLower cs.size j
    set k
    leaf .regex i k
  | none => failure

/-- An expression in parentheses, perhaps with a type. -/
def parenthesized : Read Node := do
  let opening ← symbol "("
  let x ← enclosed (self .expressions)
  let type ← if x.kind == .sequenceExpression then pure []
    else maybe (as .type (enclosed (ascription self)))
  make .parenthesized ([opening, x] ++ type ++ [← symbol ")"])

/-! ## Functions and classes -/

/-- A function, with or without a name. -/
def functionExpression : Read Node := do
  let asynchronous ← maybe (word "async")
  let w ← word "function"
  let star ← maybe (symbol "*")
  let name ← maybe (as .name (wordOf .identifier))
  let signature ← callSignature self
  let kind := if star.isEmpty then Kind.functionExpression else .generatorFunction
  make kind (asynchronous ++ [w] ++ star ++ name ++ signature ++ [← as .body (self .block)])

/-- An arrow function up to its arrow. -/
def arrowHead : Read (List Node) := do
  let signature : Read (List Node) := do
    if (← read).resultTypes then callSignature self
    else
      let generics ← maybe (self .typeParameters)
      return generics ++ [← as .parameters (self .formalParameters)]
  let full : Read (List Node) := do
    let c ← peek
    let front ← if c == '(' || c == '<' then signature
      else maybe (as .parameter (wordOf .identifier))
    if front.isEmpty then failure
    return front ++ [← operator "=>"]
  let asynchronous : Read (List Node) := do
    let w ← word "async"
    return w :: (← full)
  if (← peekWord) == "async" then asynchronous <|> full else full

/-- A block between braces, or an object if the braces cannot hold statements.  Braces that start
like a member of an object are read as an object first. -/
def blockOrObject : Read Node := do
  let member ← sees (do
    let _ ← symbol openBrace
    let _ ← wordOf .identifier
    symbol ":")
  if member then self .expression <|> self .block else self .block <|> self .expression

/-- An arrow function from its head on. -/
def arrowFunction (head : List Node) : Read Node := do
  let body ← if (← peek) == '{' then blockOrObject self else self .expression
  make .arrowFunction (head ++ [body.withRole .body])

/-- What a class extends and implements. -/
def classHeritage : Read Node := do
  let single : Read (List Node) := do
    let value ← as .value (self .operand)
    return value :: (← maybe (as .typeArguments (self .typeArguments)))
  let extending : Read Node := do
    let w ← word "extends"
    let first ← single
    let more ← many (do
      let c ← symbol ","
      return c :: (← single))
    make .extendsClause ([w] ++ first ++ more.flatten)
  let implementing : Read Node := do
    let w ← word "implements"
    make .implementsClause (w :: (← commaSep1 (self .type)))
  let parts := (← maybe (enclosed extending)) ++ (← maybe (enclosed implementing))
  if parts.isEmpty then failure else make .classHeritage parts

/-- A class after its name: type parameters, heritage and body. -/
def classTail : Read (List Node) := do
  let generics ← maybe (self .typeParameters)
  let heritage ← maybe (classHeritage self)
  return generics ++ heritage ++ [← as .body (self .classBody)]

/-- A class, with or without a name. -/
def classExpression : Read Node := do
  let decorators ← many (self .decorator)
  let w ← word "class"
  let name ← maybe (do
    if ["extends", "implements"].contains (← peekWord) then failure
    else as .name (wordOf .typeName))
  make .classExpression (decorators ++ [w] ++ name ++ (← classTail self))

/-- A name with statements in it. -/
def moduleTail : Read (List Node) := do
  let path : Read Node := do
    let first ← wordOf .identifier
    let more ← many (do
      let dot ← operator "."
      return (dot, ← wordOf .propertyName))
    more.foldlM (fun base (dot, part) => make .nestedName [base, dot, part]) first
  let name ← as .name (stringLiteral <|> path)
  let body ← maybe (do
    if (← peek) == '{' then as .body (self .block) else failure)
  return name :: body

/-- A namespace. -/
def internalModule : Read Node := do
  let w ← word "namespace"
  make .internalModule (w :: (← moduleTail self))

/-! ## Operands -/

/-- A member of what stands before: a dot and a name. -/
def memberStep (x : Node) : Read Node := do
  let dot ← operator "."
  let name ← if (← peek) == '#' then self .propertyName else wordOf .propertyName
  make .memberExpression [x.withRole .object, dot, name.withRole .property]

/-- An element of what stands before: an expression in brackets. -/
def elementStep (x : Node) (chain : List Node) : Read Node := do
  let opening ← symbol "["
  let index ← as .index (enclosed (self .expressions))
  make .subscriptExpression ([x.withRole .object] ++ chain ++ [opening, index, ← symbol "]"])

/-- A step that is left out if what stands before is missing. -/
def optionalStep (x : Node) : Read Node := do
  let t ← operator "?."
  if (charAt (← read).chars (← get)).isDigit then failure
  let c ← peek
  if c == '[' then elementStep self x [← make .optionalChain [t]]
  else if c == '(' || c == '<' then
    let types ← maybe (as .typeArguments (self .typeArguments))
    make .callExpression ([x.withRole .callee, t] ++ types ++ [← as .arguments (self .arguments)])
  else
    let name ← if c == '#' then self .propertyName else wordOf .propertyName
    make .memberExpression
      [x.withRole .object, ← make .optionalChain [t], name.withRole .property]

/-- One more step of a chain. -/
def chainStep (calls : Bool) (x : Node) : Read Node := do
  if !(← goesOn) then failure
  let c ← peek
  if c == '.' then memberStep self x
  else if c == '[' then elementStep self x []
  else if !calls then failure
  else if c == '?' then optionalStep self x
  else if c == '(' then
    make .callExpression [x.withRole .callee, ← as .arguments (self .arguments)]
  else if c == '\x60' then
    make .callExpression [x.withRole .callee, ← as .arguments (templateString self)]
  else failure

/-- The steps of a chain: members, elements and, if wanted, calls. -/
def chain (calls : Bool) : Nat → Node → Read Node
  | 0, x => return x
  | n + 1, x => do
    match ← optional (chainStep self calls x) with
    | some next => chain calls n next
    | none => return x

/-- An operand with its chain. -/
def chained (calls : Bool) (x : Node) : Read Node := do
  chain self calls ((← read).chars.size) x

/-- An operand that starts with `import`. -/
def importOperand : Read Node := do
  let w ← word "import"
  match ← optional (operator ".") with
  | some dot => make .metaProperty [w, dot, ← word "meta"]
  | none =>
    let base ← make .import [w]
    make .callExpression [base.withRole .callee, ← as .arguments (self .arguments)]

/-- An operand that starts with a word. -/
def wordOperand : Read Node := do
  let w ← peekWord
  if w == "function" then functionExpression self
  else if w == "async" then functionExpression self <|> wordOf .identifier
  else if w == "class" then classExpression self
  else if w == "import" then importOperand self
  else if w == "super" then wordOf .super
  else if w == "this" then wordOf .this
  else if w == "true" then wordOf .trueLiteral
  else if w == "false" then wordOf .falseLiteral
  else if w == "null" then wordOf .nullLiteral
  else if w == "undefined" then wordOf .undefinedLiteral
  else if w == "namespace" then
    (do
      let _ ← ahead (do
        let _ ← word "namespace"
        wordOf .identifier)
      let m ← internalModule self
      if (m.child? .body).isSome then return m else failure) <|> wordOf .identifier
  else wordOf .identifier

/-- An operand that is an object or an array, or a pattern that something is assigned to. -/
def bracketOperand (literal : Rule) : Read Node := do
  match ← optional (self literal) with
  | some x => return x
  | none =>
    let target ← self .pattern
    let eq ← operator "="
    make .assignment [target.withRole .left, eq, ← as .right (self .expression)]

/-- An operand before its chain. -/
def plainOperand : Read Node := do
  let c ← peek
  if c == '(' then parenthesized self
  else if c == '[' then bracketOperand self .array
  else if c == '{' then bracketOperand self .object
  else if c == '\x22' || c == '\x27' then stringLiteral
  else if c == '\x60' then templateString self
  else if c == '/' then regexLiteral
  else if c == '@' then classExpression self
  else if c == '#' then self .propertyName
  else if c.isDigit || c == '.' then numberLiteral
  else if c == '<' then if (← read).markup then self .markup else failure
  else wordOperand self

/-- What is constructed with `new`, with the types and arguments given to it. -/
def newExpression : Read Node := do
  let w ← word "new"
  match ← optional (operator ".") with
  | some dot => make .metaProperty [w, dot, ← word "target"]
  | none =>
    let base ← if (← peekWord) == "new" then self .operand else plainOperand self
    let target ← as .constructed (chained self false base)
    let types ← maybe (as .typeArguments (do
      let t ← self .typeArguments
      let c ← peek
      if "(),;:.?]=&|!\x7d\x00".toList.contains c || !(← goesOn) then return t else failure))
    let args ← if (← goesOn) && (← peek) == '(' then maybe (as .arguments (self .arguments))
      else pure []
    make .newExpression ([w, target] ++ types ++ args)

/-- An operand: an arrow function, something yielded, or a plain operand with its chain. -/
def operand : Read Node := do
  match ← optional (arrowHead self) with
  | some head =>
    let f ← arrowFunction self head
    if (f.child? .body).any (·.kind == .statementBlock) then chained self true f else return f
  | none =>
    let w ← peekWord
    if w == "yield" then
      let t ← word "yield"
      match ← optional (operator "*") with
      | some star => make .yieldExpression [t, star, ← self .expression]
      | none =>
        if ← goesOn then make .yieldExpression (t :: (← maybe (self .expression)))
        else make .yieldExpression [t]
    else if w == "new" then chained self true (← newExpression self)
    else chained self true (← plainOperand self)

/-! ## Patterns -/

/-- A pattern with an optional value for what is missing. -/
def patternOrPreset (kind : Kind) (target : Read Node) : Read Node := do
  let left ← target
  match ← optional (operator "=") with
  | some eq => make kind [left.withRole .left, eq, ← as .right (self .expression)]
  | none => return left

/-- Marks for what is not missing, each with the chain behind it. -/
def marked : Nat → Node → Read Node
  | 0, x => return x
  | n + 1, x => do
    match ← optional (operator "!") with
    | some t => marked n (← chained self true (← make .nonNullExpression [x, t]))
    | none => return x

/-- A place in a value: a member or an element of what an expression gives, or one that is marked as not
missing. -/
def place : Read Node := do
  let x ← marked self ((← read).chars.size) (← self .operand)
  if [Kind.memberExpression, .subscriptExpression, .nonNullExpression].contains x.kind then return x
  else failure

/-- What a part of a pattern gives its value to: a name, another pattern, or a place in a value.  The
first two are the whole part, so that a comma, a bracket, a brace or an equals sign follows. -/
def patternTarget : Read Node := do
  let dots ← maybe (operator "...")
  let whole : Read Node := do
    let x ← self .pattern
    if ",]\x7d=".toList.contains (← peek) then return x else failure
  let target ← whole <|> place self
  if dots.isEmpty then return target else make .restPattern (dots ++ [target])

/-- One part of an object pattern. -/
def objectPatternPart : Read Node := do
  let rest : Read Node := do
    if (← peek) != '.' then failure
    patternTarget self
  let pair : Read Node := do
    let name ← as .key (self .propertyName)
    let c ← symbol ":"
    let target ← patternOrPreset self .assignmentPattern (patternTarget self)
    make .pairPattern [name, c, target.withRole .value]
  let short : Read Node :=
    patternOrPreset self .objectAssignmentPattern (wordOf .shorthandPattern)
  rest <|> pair <|> short

/-- What a declaration or an assignment binds. -/
def pattern : Read Node := do
  let c ← peek
  if c == '{' then
    let opening ← symbol openBrace
    let parts ← enclosed (commaSepHoles (objectPatternPart self))
    make .objectPattern ([opening] ++ parts ++ [← symbol closeBrace])
  else if c == '[' then
    let opening ← symbol "["
    let parts ← enclosed (commaSepHoles
      (patternOrPreset self .assignmentPattern (patternTarget self)))
    make .arrayPattern ([opening] ++ parts ++ [← symbol "]"])
  else if c == '.' then
    let dots ← operator "..."
    make .restPattern [dots, ← self .pattern]
  else
    let n ← wordOf .identifier
    if n.text == "this" then return { n with kind := .this } else return n

/-! ## Operators -/

/-- An operator that waits for what stands to its right. -/
inductive Pending
  | unary (op : Node)
  | update (op : Node)
  | assertion (types : Node)
  | await (op : Node)
  | binary (left op : Node) (level : Nat)

/-- The level of comparisons. -/
def comparisonLevel : Nat := 8

/-- The level of `**`, whose right side is read first. -/
def powerLevel : Nat := 12

namespace Pending

/-- The operator with its right side. -/
def close (x : Node) : Pending → Read Node
  | .unary op => make .unaryExpression [op.withRole .operator, x.withRole .argument]
  | .update op => make .updateExpression [op.withRole .operator, x.withRole .argument]
  | .assertion types => make .typeAssertion [types, x]
  | .await op => make .awaitExpression [op, x]
  | .binary left op _ =>
    make .binaryExpression [left.withRole .left, op.withRole .operator, x.withRole .right]

/-- Whether an operator takes an operand before an operator of the level behind it does. -/
def binds (level : Nat) : Pending → Bool
  | .binary _ _ own => if own == powerLevel then level < own else level ≤ own
  | _ => true

/-- Whether a postfix `!` or a cast takes the operator with it. -/
def yieldsToCast : Pending → Bool
  | .await _ => false
  | .binary _ _ own => own != powerLevel
  | _ => true

/-- Whether a call with types takes the operator with it. -/
def yieldsToCall : Pending → Bool
  | .assertion _ => false
  | .binary _ _ own => comparisonLevel < own
  | _ => true

end Pending

/-- Closes waiting operators, the last one first. -/
def closeAll (waiting : List Pending) (x : Node) : Read Node := waiting.foldlM Pending.close x

/-- Closes the last waiting operators that pass a test, and gives the others back. -/
def closeWhile (test : Pending → Bool) (waiting : List Pending) (x : Node) :
    Read (Node × List Pending) := do
  return (← closeAll (waiting.takeWhile test) x, waiting.dropWhile test)

/-- What follows the types given to an operand. -/
inductive GenericTail
  | call (types args : Node)
  | template (types args : Node)
  | alone (types : Node)

/-- Types given to what stands before, as part of a call or alone where no operand can follow. -/
def genericTail : Read GenericTail := do
  if !(← sees (operator "<")) then failure
  let types ← as .typeArguments (self .typeArguments)
  let c ← peek
  if c == '(' then return .call types (← as .arguments (self .arguments))
  else if c == '\x60' then return .template types (← as .arguments (templateString self))
  else if ")],;:.?=&|\x7d\x00".toList.contains c || !(← goesOn) then return .alone types
  else failure

/-- How tightly the operators between two operands bind. -/
def binaryLevels : List (String × Nat) :=
  [("??", 1), ("||", 2), ("&&", 3), ("|", 4), ("^", 5), ("&", 6), ("==", 7), ("!=", 7), ("===", 7),
   ("!==", 7), ("<", 8), (">", 8), ("<=", 8), (">=", 8), ("instanceof", 8), ("in", 8), ("<<", 9),
   (">>", 9), (">>>", 9), ("+", 10), ("-", 10), ("*", 11), ("/", 11), ("%", 11), ("**", 12)]

/-- The operators that assign what they compute. -/
def augmentedOperators : List String :=
  ["+=", "-=", "*=", "/=", "%=", "^=", "&=", "|=", ">>=", ">>>=", "<<=", "**=", "&&=", "||=",
   "??="]

/-- The longest punctuation or the word at the next lexeme. -/
def nextOperator : Read Node := do
  if isWordStart (← peek) then wordOf .token
  else
    toLexeme
    let i ← get
    match punctuationAt? (← read).chars i with
    | some p =>
      set (i + p.length)
      leaf .token i (i + p.length)
    | none => failure

/-- An operator in front of its operand. -/
def frontOperator : Read Pending := do
  if (← peek) == '<' then
    if (← read).markup || (← sees (arrowHead self)) then failure
    return .assertion (← self .typeArguments)
  let t ← nextOperator
  if ["!", "~", "-", "+", "typeof", "void", "delete"].contains t.text then return .unary t
  else if t.text == "++" || t.text == "--" then return .update t
  else if t.text == "await" then return .await t
  else failure

/-- Expressions that can be assigned to. -/
def isTarget (kind : Kind) : Bool :=
  [.identifier, .memberExpression, .subscriptExpression, .nonNullExpression, .parenthesized,
    .object, .array, .undefinedLiteral].contains kind

/-- The target of an assignment; an object or array that was read as a value is read again. -/
def assignmentTarget (x : Node) : Read Node := do
  if x.kind == .object || x.kind == .array then
    let here ← get
    set x.start
    let target ← self .pattern
    if (← get) == x.stop then
      set here
      return target
    else failure
  else return x

/-! ## Comparisons that start like types

Behind `<` a list of types may stand as well as an operand.  Where the text could be both, the
reading as types wins at a negated number, at `typeof` with a name, and at the brace that closes an
object with a single member; if no list of types comes of it, the text is not well formed. -/

/-- The characters that can follow both a type and an operand, inside a bracket or outside. -/
def sharedFollow (bracket : Option Char) : List Char :=
  match bracket with
  | none => [',', '>']
  | some '(' => [')']
  | some _ => [',', ']']

/-- Whether the next lexeme can follow both a type and an operand. -/
def followsBoth (bracket : Option Char) : Read Bool := do
  if (sharedFollow bracket).contains (← peek) then return true
  else sees (operator "|" <|> operator "&")

/-- A number with a sign, or `typeof` with a path of names. -/
def typeLikeOperand : Read Unit := do
  let signed : Read Unit := do
    let _ ← operator "-" <|> operator "+"
    let _ ← numberLiteral
  let queried : Read Unit := do
    let _ ← word "typeof"
    let _ ← wordOf .identifier
    let _ ← many (do
      let _ ← operator "."
      wordOf .identifier)
  signed <|> queried

/-- The value of a member that could be a type up to the brace that closes the object: a literal, a
name, empty brackets, another such object, or a function that gives one of these.  Braces behind an
arrow are statements. -/
def typeLikeValue (object : Read Unit) : Read Unit := do
  let arrows ← many (do
    let _ ← self .formalParameters
    operator "=>")
  if !arrows.isEmpty && (← peek) == '{' then failure
  let literal : Read Unit := do
    let _ ← stringLiteral <|> numberLiteral
      <|> templateOf .templateString .templateSubstitution false failure
  let empty : Read Unit := do
    let t ← symbol "[" <|> symbol openBrace
    let _ ← symbol (if t.text == "[" then "]" else closeBrace)
  let name : Read Unit := do
    let _ ← wordOf .identifier
  typeLikeOperand <|> literal <|> empty <|> object <|> name

/-- An object with a single member that could be a type; the first argument bounds the nesting. -/
def typeLikeObject : Nat → Read Unit
  | 0 => failure
  | n + 1 => do
    let _ ← symbol openBrace
    let member : Read Unit := do
      let _ ← self .propertyName
      let _ ← symbol ":"
      typeLikeValue self (typeLikeObject n)
      let _ ← symbol closeBrace
    let short : Read Unit := do
      let _ ← wordOf .identifier
      let _ ← symbol closeBrace
    member <|> short

/-- Refuses an operand behind `<` that is taken for types.  Opening brackets are passed over; the
first argument bounds their number, and the second is the last one. -/
def refuseTypes : Nat → Option Char → Read Unit
  | 0, _ => return ()
  | n + 1, bracket => do
    let here ← get
    if ← sees (typeLikeObject self n) then failure
    match ← optional typeLikeOperand with
    | some _ => if ← followsBoth bracket then failure else set here
    | none =>
      match ← optional (symbol "(" <|> symbol "[") with
      | some t =>
        refuseTypes n (if t.text == "(" then some '(' else some '[')
        set here
      | none => return ()

/-- Goes on behind an operand with the operator that was read: gives the operators that wait and, if
no operand has to follow, the operand that was read last.  Gives nothing if the operator does not
belong to the expression. -/
def applyOperator (waiting : List Pending) (x t : Node) :
    Read (Option (List Pending × Option Node)) := do
  if t.text == "!" then
    let (inner, rest) ← closeWhile Pending.yieldsToCast waiting x
    return some (rest, some (← chained self true (← make .nonNullExpression [inner, t])))
  else if t.text == "as" || t.text == "satisfies" then
    let (inner, rest) ← closeWhile Pending.yieldsToCast waiting x
    let kind := if t.text == "as" then Kind.asExpression else .satisfiesExpression
    let type ←
      if t.text == "as" && (← peekWord) == "const" then word "const" else enclosed (self .type)
    return some (rest, some (← make kind [inner, t, type]))
  else if t.text == "++" || t.text == "--" then
    let y ← make .updateExpression [x.withRole .argument, t.withRole .operator]
    return some (waiting, some y)
  else if t.text == "=" && isTarget x.kind then
    let target ← assignmentTarget self x
    let y ← make .assignment [target.withRole .left, t, ← as .right (self .expression)]
    return some (waiting, some y)
  else if augmentedOperators.contains t.text && isTarget x.kind then
    let y ← make .augmentedAssignment
      [x.withRole .left, t.withRole .operator, ← as .right (self .expression)]
    return some (waiting, some y)
  else
    match binaryLevels.lookup t.text with
    | none => return none
    | some level =>
      if t.text == "<" then refuseTypes self ((← read).chars.size) none
      let (left, rest) ← closeWhile (Pending.binds level) waiting x
      return some (.binary left t level :: rest, none)

/-- Goes on behind an operand with types in angle brackets. -/
def applyGeneric (waiting : List Pending) (x : Node) : GenericTail → Read (List Pending × Node)
  | .call types args => do
    let (callee, rest) ← closeWhile Pending.yieldsToCall waiting x
    let call ← make .callExpression [callee.withRole .callee, types, args]
    return (rest, ← chained self true call)
  | .template types args => do
    let call ← make .callExpression [x.withRole .callee, types, args]
    return (waiting, ← chained self true call)
  | .alone types => return (waiting, ← make .instantiation [x, types])

/-- Operands with operators between them.  The list holds the operators that wait, and the last
argument the operand that was read last. -/
def operandsFrom : Nat → List Pending → Option Node → Read Node
  | 0, _, _ => failure
  | n + 1, waiting, none => do
    match ← optional (frontOperator self) with
    | some op => operandsFrom n (op :: waiting) none
    | none => operandsFrom n waiting (some (← self .operand))
  | n + 1, waiting, some x => do
    let here ← get
    if !(← goesOn) then closeAll waiting x
    else
      let generic ← if (← peek) == '<' then optional (genericTail self) else pure none
      match generic with
      | some tail =>
        let (waiting, y) ← applyGeneric self waiting x tail
        operandsFrom n waiting (some y)
      | none =>
        let applied ← match ← optional nextOperator with
          | some t => applyOperator self waiting x t
          | none => pure none
        match applied with
        | some (waiting, y) => operandsFrom n waiting y
        | none =>
          set here
          closeAll waiting x

/-- Operands with operators between them. -/
def operands : Read Node := do
  operandsFrom self ((← read).chars.size + 2) [] none

/-- The question mark of a conditional: not one that marks something as optional. -/
def questionMark : Read Node := do
  toLexeme
  let i ← get
  let cs := (← read).chars
  let optionalMember := charAt cs (i + 1) == '.' && !(charAt cs (i + 2)).isDigit
  if charAt cs i != '?' || charAt cs (i + 1) == '?' || optionalMember then failure
  else
    let next := charAt cs (spanEnd cs isSpace cs.size (i + 1))
    if next == ':' || next == ')' || next == ',' then failure
    set (i + 1)
    leaf .token i (i + 1)

/-- An expression without commas. -/
def expression : Read Node := do
  let x ← operands self
  let mark ← if ← goesOn then optional questionMark else pure none
  match mark with
  | none => return x
  | some q =>
    let yes : Read (Node × Node) := do
      let y ← self .expression
      return (y, ← symbol ":")
    let plain : Setting → Setting := fun s => { s with endable := false, resultTypes := false }
    let (y, c) ← enclosed yes <|> withReader plain yes
    make .ternaryExpression
      [x.withRole .condition, q, y.withRole .consequence, c,
        ← as .alternative (self .expression)]

/-- An expression, or several with commas between them. -/
def expressions : Read Node := do
  let x ← self .expression
  let more ← many (do
    let c ← symbol ","
    return [c, ← self .expression])
  if more.isEmpty then return x else make .sequenceExpression (x :: more.flatten)

end RouteScribe.Source.Grammar
