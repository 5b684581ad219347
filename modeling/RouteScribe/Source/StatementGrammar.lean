import RouteScribe.Source.ExpressionGrammar

/-!
# The grammar of statements and declarations

A statement is recognised by its first words, so that a rule is left only where another reading of
the same words exists.
-/

namespace RouteScribe.Source.Grammar

open Read

variable (self : Rules)

/-! ## Variables -/

/-- One declared variable. -/
def variableDeclarator : Read Node := do
  let name ← as .name (self .pattern)
  let definite ← maybe (do
    let t ← operator "!"
    if (← peek) == ':' then return t else failure)
  let type ← maybe (as .type (ascription self))
  let value ← if definite.isEmpty then maybe (initializer self) else pure []
  make .variableDeclarator ([name] ++ definite ++ type ++ value.flatten)

/-- Variables with the end of the statement. -/
def declarators (finish : Bool → Read (List Node)) : Read (List Node) := do
  let ds ← commaSep1 (variableDeclarator self)
  let valued := (ds.getLast?.bind (·.child? .value)).isSome
  return ds ++ (← finish valued)

/-- A declaration of variables. -/
def variableDeclaration (finish : Bool → Read (List Node)) : Read Node := do
  let w ← oneWord ["let", "const", "var"]
  if w.text == "var" then make .variableDeclaration (w :: (← declarators self finish))
  else make .lexicalDeclaration (w.withRole .keyword :: (← declarators self finish))

/-! ## Functions and classes -/

/-- A named function: a declaration, or a signature if it has no body. -/
def functionDeclaration : Read Node := do
  let asynchronous ← maybe (word "async")
  let w ← word "function"
  let star ← maybe (symbol "*")
  let name ← as .name (wordOf .identifier)
  let signature ← endable (callSignature self)
  let front := asynchronous ++ [w] ++ star ++ [name] ++ signature
  if (← peek) == '{' then
    let kind := if star.isEmpty then Kind.functionDeclaration else .generatorFunctionDeclaration
    make kind (front ++ [← as .body (self .block)])
  else make .functionSignature (front ++ (← semicolon false))

/-- A named class. -/
def classDeclaration : Read Node := do
  let decorators ← many (self .decorator)
  let abstr ← maybe (word "abstract")
  let w ← word "class"
  let name ← as .name (wordOf .typeName)
  let kind := if abstr.isEmpty then Kind.classDeclaration else .abstractClassDeclaration
  make kind (decorators ++ abstr ++ [w, name] ++ (← classTail self))

/-- The words that can stand before the name of a member of a class. -/
def memberWords : List String :=
  ["public", "private", "protected", "static", "override", "readonly", "async", "abstract",
   "declare", "accessor", "get", "set"]

/-- The end of a member without a body. -/
def memberEnd (binary : Bool) : Read (List Node) := do
  match ← optional (symbol ",") with
  | some t => return [t]
  | none => semicolon binary

/-- A member of a class with a name: a method or a field. -/
def namedMember : Read (List Node) := do
  let modifiers ← many (modifier memberWords)
  let star ← maybe (symbol "*")
  let name ← as .name (self .propertyName)
  let mark ← maybe (symbol "?" <|> operator "!")
  let front := modifiers ++ star ++ [name] ++ mark
  let c ← peek
  if c == '(' || c == '<' then
    let head := front ++ (← endable (callSignature self))
    if (← peek) == '{' then
      let body ← as .body (self .block)
      return [← make .methodDefinition (head ++ [body])] ++ (← maybe (symbol ";"))
    else
      let abstr := modifiers.any (·.text == "abstract")
      let n ← make (if abstr then .abstractMethodSignature else .methodSignature) head
      return n :: (← memberEnd false)
  else
    let type ← maybe (as .type (endable (ascription self)))
    let value ← maybe (endable (initializer self))
    let n ← make .fieldDefinition (front ++ type ++ value.flatten)
    return n :: (← memberEnd (!value.isEmpty))

/-- One member of a class, or a semicolon between members. -/
def classMember : Read (List Node) := do
  if (← peek) == ';' then return [← symbol ";"]
  let decorators ← many (self .decorator)
  let staticBlock : Read (List Node) := do
    let w ← word "static"
    if (← peek) != '{' then failure
    return [← make .classStaticBlock [w, ← as .body (self .block)]]
  let indexed : Read (List Node) := do
    let n ← endable (indexSignature self)
    return n :: (← memberEnd false)
  match ← optional staticBlock with
  | some ns => return decorators ++ ns
  | none =>
    match ← optional indexed with
    | some ns => return decorators ++ ns
    | none => return decorators ++ (← namedMember self)

/-- The members of a class between braces. -/
def classBody : Read Node := do
  let opening ← symbol openBrace
  let members ← many (classMember self)
  make .classBody ([opening] ++ members.flatten ++ [← symbol closeBrace])

/-- A mark on a class, a member or a parameter. -/
def decorator : Read Node := do
  let t ← symbol "@"
  if (← peek) == '(' then make .decorator [t, ← enclosed (parenthesized self)]
  else
    let path ← pathSteps self false ((← read).chars.size) (← wordOf .identifier)
    let types ← maybe (as .typeArguments (self .typeArguments))
    if (← peek) == '(' then
      let call ← make .callExpression
        ([path.withRole .callee] ++ types ++ [← as .arguments (self .arguments)])
      make .decorator [t, call]
    else if types.isEmpty then make .decorator [t, path]
    else failure

/-! ## Declarations of types -/

/-- An alias for a type. -/
def typeAlias : Read Node := do
  let w ← word "type"
  let name ← as .name (wordOf .typeName)
  let generics ← maybe (self .typeParameters)
  let eq ← operator "="
  let value ← as .value (endable (self .type))
  make .typeAliasDeclaration ([w, name] ++ generics ++ [eq, value] ++ (← semicolon false))

/-- An interface. -/
def interfaceDeclaration : Read Node := do
  let w ← word "interface"
  let name ← as .name (wordOf .typeName)
  let generics ← maybe (self .typeParameters)
  let bases ← maybe (do
    let e ← word "extends"
    make .extendsTypeClause (e :: (← enclosed (commaSep1 (as .type (namedType self))))))
  let body ← as .body (objectType self .interfaceBody)
  make .interfaceDeclaration ([w, name] ++ generics ++ bases ++ [body])

/-- One member of an enumeration. -/
def enumMember : Read Node := do
  let name ← as .name (self .propertyName)
  match ← optional (initializer self) with
  | some value => make .enumAssignment (name :: value)
  | none => return name

/-- An enumeration. -/
def enumDeclaration : Read Node := do
  let constant ← maybe (word "const")
  let w ← word "enum"
  let name ← as .name (wordOf .identifier)
  let opening ← symbol openBrace
  let members ← enclosed (maybe (do
    let ms ← commaSep1 (enumMember self)
    return ms ++ (← maybe (symbol ","))))
  let body ← make .enumBody ([opening] ++ members.flatten ++ [← symbol closeBrace])
  make .enumDeclaration (constant ++ [w, name, body.withRole .body])

/-- A module with a name of its own. -/
def moduleDeclaration : Read Node := do
  let w ← word "module"
  make .moduleDeclaration (w :: (← moduleTail self))

/-- A name for a part of a module. -/
def importAlias : Read Node := do
  let w ← word "import"
  let name ← wordOf .identifier
  let eq ← operator "="
  let target ← typePath
  make .importAlias ([w, name, eq, target] ++ (← semicolon false))

/-! ## Imports and exports -/

/-- The module that is imported from. -/
def fromClause : Read (List Node) := do
  let w ← word "from"
  return [w, ← stringLiteral]

/-- A name across modules: a word or a string. -/
def moduleName : Read Node := stringLiteral <|> wordOf .identifier

/-- One imported or exported name, perhaps under another name. -/
def specifier (kind : Kind) : Read Node := do
  let renamed : Read (List Node) := do
    let name ← as .name moduleName
    let w ← word "as"
    return [name, w, ← moduleName]
  let plain : Read (List Node) := do return [← as .name moduleName]
  let typed : Read (List Node) := do
    let w ← oneWord ["type", "typeof"]
    return w :: (← renamed <|> plain)
  let ends (p : Read (List Node)) : Read (List Node) := do
    let ns ← p
    let c ← peek
    if c == ',' || c == '}' then return ns else failure
  make kind (← ends renamed <|> ends plain <|> ends typed)

/-- Names between braces. -/
def specifiers (kind item : Kind) : Read Node := do
  let opening ← symbol openBrace
  let names ← maybe (commaSep1 (specifier item))
  let comma ← if names.isEmpty then pure [] else maybe (symbol ",")
  make kind ([opening] ++ names.flatten ++ comma ++ [← symbol closeBrace])

/-- What an import takes from a module. -/
def importClause : Read Node := do
  let all : Read Node := do
    let star ← symbol "*"
    let w ← word "as"
    make .namespaceImport [star, w, ← wordOf .identifier]
  let several : Read Node := specifiers .namedImports .importSpecifier
  let single : Read Node := do
    let name ← wordOf .identifier
    let more ← maybe (do
      let c ← symbol ","
      return [c, ← all <|> several])
    make .importClause (name :: more.flatten)
  let alone (p : Read Node) : Read Node := do make .importClause [← p]
  alone all <|> alone several <|> single

/-- What is stated about an imported module. -/
def importAttribute : Read Node := do
  let w ← oneWord ["with", "assert"]
  make .importAttribute [w, ← self .object]

/-- An import. -/
def importStatement : Read Node := do
  let w ← word "import"
  let clause : Read (List Node) := do
    let c ← importClause
    return c :: (← fromClause)
  let required : Read (List Node) := do
    let name ← wordOf .identifier
    let eq ← operator "="
    let r ← word "require"
    let opening ← symbol "("
    let source ← stringLiteral
    return [← make .importRequireClause [name, eq, r, opening, source, ← symbol ")"]]
  let bare : Read (List Node) := do return [← stringLiteral]
  let typed (p : Read (List Node)) : Read (List Node) := do
    let t ← oneWord ["type", "typeof"]
    return t :: (← p)
  let content ← bare <|> clause <|> required <|> typed clause <|> typed required
  let attributes ← maybe (importAttribute self)
  make .importStatement ([w] ++ content ++ attributes ++ (← semicolon false))

/-- Whether the next words start a function with a name. -/
def namedFunctionAhead : Read Bool :=
  sees (do
    let _ ← maybe (word "async")
    let _ ← word "function"
    let _ ← maybe (symbol "*")
    wordOf .identifier)

/-- Whether the next words start a class with a name. -/
def namedClassAhead : Read Bool :=
  sees (do
    let _ ← maybe (word "abstract")
    let _ ← word "class"
    let n ← wordOf .identifier
    if ["extends", "implements"].contains n.text then failure else return n)

/-- Whether the next words start an alias for a type. -/
def typeAliasAhead : Read Bool :=
  sees (do
    let _ ← word "type"
    let _ ← wordOf .identifier
    operator "=" <|> symbol "<")

/-- Whether the next words start a module: a keyword, and a name or a string. -/
def moduleAhead (keyword : String) : Read Bool :=
  sees (do
    let _ ← word keyword
    stringLiteral <|> wordOf .identifier)

/-- A declaration, as it stands after `export` or `declare`. -/
def declaration : Read Node := do
  let w ← peekWord
  if (← peek) == '@' then classDeclaration self
  else if w == "const" then
    if ← sees (do
        let _ ← word "const"
        word "enum") then enumDeclaration self
    else endable (variableDeclaration self semicolon)
  else if w == "let" || w == "var" then endable (variableDeclaration self semicolon)
  else if w == "function" || w == "async" then functionDeclaration self
  else if w == "class" || w == "abstract" then classDeclaration self
  else if w == "interface" then interfaceDeclaration self
  else if w == "enum" then enumDeclaration self
  else if w == "type" then typeAlias self
  else if w == "namespace" then internalModule self
  else if w == "module" then moduleDeclaration self
  else if w == "import" then importAlias
  else if w == "declare" then self .statement
  else failure

/-- A declaration of what exists elsewhere. -/
def ambientDeclaration : Read Node := do
  let w ← word "declare"
  let global : Read (List Node) := do
    let g ← word "global"
    return [g, ← self .block]
  let plain : Read (List Node) := do return [← declaration self]
  make .ambientDeclaration (w :: (← global <|> plain))

/-- What stands after `export default`. -/
def defaultExport : Read (List Node) := do
  let w ← word "default"
  let next ← peekWord
  if (← namedFunctionAhead) || (← namedClassAhead) || (← peek) == '@'
      || ["interface", "enum", "const", "let", "var"].contains next || (← typeAliasAhead) then
    return [w, ← as .declaration (declaration self)]
  else
    let value ← as .value (endable (self .expression))
    return [w, value] ++ (← semicolon true)

/-- An export. -/
def exportStatement : Read Node := do
  let decorators ← many (self .decorator)
  let w ← word "export"
  let front := decorators ++ [w]
  let c ← peek
  let next ← peekWord
  let clause : Read (List Node) := do
    let names ← specifiers .exportClause .exportSpecifier
    let source ← maybe fromClause
    return [names] ++ source.flatten ++ (← semicolon false)
  let typeClause : Read (List Node) := do
    let t ← word "type"
    if (← peek) != '{' then failure
    return t :: (← clause)
  if c == '*' then
    let star ← symbol "*"
    let name ← maybe (do
      let a ← word "as"
      return [a, ← moduleName])
    let all ← if name.isEmpty then pure star
      else make .namespaceExport (star :: name.flatten)
    make .exportStatement (front ++ [all] ++ (← fromClause) ++ (← semicolon false))
  else if c == '{' then make .exportStatement (front ++ (← clause))
  else if c == '=' then
    let eq ← operator "="
    let x ← endable (self .expression)
    make .exportStatement (front ++ [eq, x] ++ (← semicolon true))
  else if next == "default" then make .exportStatement (front ++ (← defaultExport self))
  else if next == "as" then
    let a ← word "as"
    let n ← word "namespace"
    let name ← wordOf .identifier
    make .exportStatement (front ++ [a, n, name] ++ (← semicolon false))
  else
    match ← optional typeClause with
    | some ns => make .exportStatement (front ++ ns)
    | none =>
      let d ← if next == "declare" then ambientDeclaration self else declaration self
      make .exportStatement (front ++ [d.withRole .declaration])

/-! ## Control -/

/-- Statements between braces. -/
def block : Read Node := do
  let opening ← symbol openBrace
  let statements ← many (self .statement)
  make .statementBlock ([opening] ++ statements ++ [← symbol closeBrace])

/-- An expression as a statement. -/
def expressionStatement : Read Node := do
  let x ← endable (self .expressions)
  make .expressionStatement (x :: (← semicolon true))

/-- A choice between two statements. -/
def ifStatement : Read Node := do
  let w ← word "if"
  let condition ← as .condition (parenthesized self)
  let yes ← as .consequence (self .statement)
  let no ← maybe (do
    let e ← word "else"
    as .alternative (make .elseClause [e, ← self .statement]))
  make .ifStatement ([w, condition, yes] ++ no)

/-- The head of a loop over the members or elements of a value. -/
def forInHead : Read (List Node) := do
  let opening ← symbol "("
  let declared : Read (List Node) := do
    let w ← oneWord ["let", "const", "var"]
    let target ← as .left (self .pattern)
    let value ← if w.text == "var" then maybe (initializer self) else pure []
    return [w.withRole .keyword, target] ++ value.flatten
  let plain : Read (List Node) := do
    let x ← self .operand
    if isTarget x.kind then return [(← assignmentTarget self x).withRole .left] else failure
  let left ← enclosed (do
    let front ← declared <|> plain
    return front ++ [← as .operator (oneWord ["in", "of"])])
  let right ← as .right (enclosed (self .expressions))
  return [opening] ++ left ++ [right, ← symbol ")"]

/-- The head of a loop with a start, a condition and a step. -/
def forHead : Read (List Node) := do
  let opening ← symbol "("
  let finish (_ : Bool) : Read (List Node) := do return [← symbol ";"]
  let empty : Read (List Node) := do return [← make .emptyStatement [← symbol ";"]]
  let part (role : Role) : Read (List Node) := do
    let x ← as role (enclosed (self .expressions))
    return [x, ← symbol ";"]
  let declared : Read (List Node) := do
    return [← enclosed (variableDeclaration self finish)]
  let start ← empty <|> declared <|> part .plain
  let condition ← empty <|> part .condition
  let step ← maybe (enclosed (self .expressions))
  return [opening] ++ start ++ condition ++ step ++ [← symbol ")"]

/-- A loop. -/
def forStatement : Read Node := do
  let w ← word "for"
  let waits ← maybe (word "await")
  match ← optional (forInHead self) with
  | some head =>
    make .forInStatement ([w] ++ waits ++ head ++ [← as .body (self .statement)])
  | none =>
    let head ← forHead self
    make .forStatement ([w] ++ waits ++ head ++ [← as .body (self .statement)])

/-- A loop with its condition in front. -/
def whileStatement : Read Node := do
  let w ← word "while"
  let condition ← as .condition (parenthesized self)
  make .whileStatement [w, condition, ← as .body (self .statement)]

/-- A loop with its condition behind. -/
def doStatement : Read Node := do
  let w ← word "do"
  let body ← as .body (self .statement)
  let v ← word "while"
  let condition ← as .condition (parenthesized self)
  make .doStatement ([w, body, v, condition] ++ (← maybe (semicolon false)).flatten)

/-- One case of a choice by value. -/
def switchCase : Read Node := do
  let w ← oneWord ["case", "default"]
  let value ← if w.text == "case" then maybe (as .value (enclosed (self .expressions)))
    else pure []
  if w.text == "case" && value.isEmpty then failure
  let c ← symbol ":"
  let body ← many (do
    if ["case", "default"].contains (← peekWord) then failure
    else as .body (self .statement))
  let kind := if w.text == "case" then Kind.switchCase else .switchDefault
  make kind ([w] ++ value ++ [c] ++ body)

/-- A choice by value. -/
def switchStatement : Read Node := do
  let w ← word "switch"
  let value ← as .value (parenthesized self)
  let opening ← symbol openBrace
  let cases ← many (switchCase self)
  let body ← make .switchBody ([opening] ++ cases ++ [← symbol closeBrace])
  make .switchStatement [w, value, body.withRole .body]

/-- Statements with a handler for what goes wrong. -/
def tryStatement : Read Node := do
  let w ← word "try"
  let body ← as .body (self .block)
  let handler ← maybe (do
    let c ← word "catch"
    let bound ← if (← peek) == '(' then do
        let opening ← symbol "("
        let target ← as .parameter (self .pattern)
        let type ← maybe (as .type (enclosed (ascription self)))
        pure ([opening, target] ++ type ++ [← symbol ")"])
      else pure []
    make .catchClause ([c] ++ bound ++ [← as .body (self .block)]))
  let final ← maybe (do
    let f ← word "finally"
    make .finallyClause [f, ← as .body (self .block)])
  make .tryStatement ([w, body] ++ handler ++ final)

/-- A statement that leaves a function with a value, or without one. -/
def returnStatement : Read Node := do
  let w ← word "return"
  let value ← if ← atBreak false false then pure [] else maybe (endable (self .expressions))
  make .returnStatement ([w] ++ value ++ (← semicolon (!value.isEmpty)))

/-- A statement that leaves a loop or a labelled statement. -/
def jumpStatement (keyword : String) (kind : Kind) : Read Node := do
  let w ← word keyword
  let target ← if ← atBreak false false then pure [] else maybe (wordOf .labelName)
  make kind ([w] ++ target ++ (← semicolon false))

/-- A statement that starts with a brace. -/
def bracedStatement : Read Node := do
  let member ← sees (do
    let _ ← symbol openBrace
    let _ ← wordOf .identifier
    symbol ":")
  if member then expressionStatement self <|> self .block
  else self .block <|> expressionStatement self

/-- A statement that starts with a word that is always a keyword here. -/
def keywordStatement? (w : String) : Option (Read Node) :=
  match w with
  | "export" => some (exportStatement self)
  | "const" => some (declaration self)
  | "var" => some (declaration self)
  | "interface" => some (declaration self)
  | "enum" => some (declaration self)
  | "abstract" => some (declaration self)
  | "if" => some (ifStatement self)
  | "for" => some (forStatement self)
  | "while" => some (whileStatement self)
  | "do" => some (doStatement self)
  | "switch" => some (switchStatement self)
  | "try" => some (tryStatement self)
  | "with" => some (do
      let t ← word "with"
      let x ← parenthesized self
      make .withStatement [t, x, ← as .body (self .statement)])
  | "return" => some (returnStatement self)
  | "throw" => some (do
      let t ← word "throw"
      let x ← endable (self .expressions)
      make .throwStatement ([t, x] ++ (← semicolon true)))
  | "break" => some (jumpStatement "break" .breakStatement)
  | "continue" => some (jumpStatement "continue" .continueStatement)
  | "debugger" => some (do
      let t ← word "debugger"
      make .debuggerStatement (t :: (← semicolon false)))
  | _ => none

/-- A statement that starts with a word whose meaning depends on what follows. -/
def wordStatement (w : String) : Read Node := do
  let follows (p : Read Node) : Read Bool := sees (do
    let _ ← word w
    p)
  if w == "import" then
    if ← follows (symbol "(" <|> operator ".") then expressionStatement self
    else importStatement self <|> importAlias
  else if w == "let" then
    if ← follows (wordOf .identifier <|> symbol "[" <|> symbol openBrace) then declaration self
    else expressionStatement self
  else if w == "function" || w == "async" then
    if ← namedFunctionAhead then functionDeclaration self else expressionStatement self
  else if w == "class" then
    if ← namedClassAhead then classDeclaration self else expressionStatement self
  else if w == "type" then
    if ← typeAliasAhead then typeAlias self else expressionStatement self
  else if w == "declare" then
    if ← follows (oneWord ["const", "let", "var", "function", "async", "class", "abstract",
        "interface", "enum", "type", "namespace", "module", "global", "import", "declare"]) then
      ambientDeclaration self
    else expressionStatement self
  else if w == "module" then
    if ← moduleAhead "module" then moduleDeclaration self else expressionStatement self
  else expressionStatement self

/-- Words that start an expression or a declaration and are no names, so that they label nothing. -/
def unlabelling : List String :=
  ["this", "super", "true", "false", "null", "undefined", "typeof", "void", "delete", "await",
   "yield", "function", "class", "import"]

/-- A statement with a label. -/
def labeledStatement : Read Node := do
  let label ← wordOf .labelName
  if unlabelling.contains label.text then failure
  let c ← symbol ":"
  make .labeledStatement [label, c, ← as .body (self .statement)]

/-- A statement. -/
def statement : Read Node := do
  let c ← peek
  if c == '{' then bracedStatement self
  else if c == ';' then make .emptyStatement [← symbol ";"]
  else if c == '@' then exportStatement self <|> classDeclaration self
  else if isWordStart c || c == '\\' then
    let w ← peekWord
    match keywordStatement? self w with
    | some p => if w == "export" then p <|> labeledStatement self else p
    | none => labeledStatement self <|> wordStatement self w
  else expressionStatement self

end RouteScribe.Source.Grammar
