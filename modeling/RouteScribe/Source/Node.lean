/-!
# Syntax trees

A node of a source text has a form, the role it plays in the node above, the stretch of text it
covers, and its parts in the order of the text.  Keywords and punctuation are nodes of form
`token`; every other form is named.  Comments and blanks are not in the tree, but they are in the
text of the nodes around them.

Two walks over a tree are defined: `preorder`, by recursion, and `walk`, by a loop with a stack of
the nodes that are still to come.
-/

namespace RouteScribe.Source

/-- The form of a node. -/
inductive Kind
  | token
  | program
  -- names
  | identifier | propertyName | privateName | shorthandProperty | shorthandPattern
  | typeName | labelName | nestedName | nestedTypeName
  -- literals
  | string | templateString | templateSubstitution | number | regex | trueLiteral | falseLiteral
  | nullLiteral | undefinedLiteral | this | super | import
  -- expressions
  | parenthesized | object | array | pair | computedName | spread | methodDefinition
  | functionExpression | generatorFunction | arrowFunction | classExpression
  | memberExpression | subscriptExpression | optionalChain | callExpression | newExpression
  | arguments | metaProperty | asExpression | satisfiesExpression | nonNullExpression
  | typeAssertion | instantiation | awaitExpression | yieldExpression | unaryExpression
  | updateExpression | binaryExpression | ternaryExpression | assignment | augmentedAssignment
  | sequenceExpression | internalModule
  -- patterns and parameters
  | objectPattern | arrayPattern | pairPattern | restPattern | assignmentPattern
  | objectAssignmentPattern | formalParameters | requiredParameter | optionalParameter
  | accessModifier | overrideModifier | decorator
  -- declarations
  | lexicalDeclaration | variableDeclaration | variableDeclarator | functionDeclaration
  | generatorFunctionDeclaration | functionSignature | classDeclaration | abstractClassDeclaration
  | classHeritage | extendsClause | implementsClause | classBody | classStaticBlock
  | fieldDefinition | abstractMethodSignature | enumDeclaration | enumBody | enumAssignment
  | interfaceDeclaration | interfaceBody | extendsTypeClause | typeAliasDeclaration
  | ambientDeclaration | moduleDeclaration | importAlias
  -- statements
  | exportStatement | exportClause | exportSpecifier | namespaceExport | importStatement
  | importClause | importSpecifier | namedImports | namespaceImport | importRequireClause
  | importAttribute | expressionStatement | statementBlock | emptyStatement | ifStatement
  | elseClause | forStatement | forInStatement | whileStatement | doStatement | switchStatement
  | switchBody | switchCase | switchDefault | tryStatement | catchClause | finallyClause
  | returnStatement | throwStatement | breakStatement | continueStatement | debuggerStatement
  | labeledStatement | withStatement
  -- types
  | ascription | optionalAscription | omittingAscription | addingAscription
  | assertsAscription | predicateAscription | asserts | typePredicate
  | typeArguments | typeParameters | typeParameter | constraint | defaultType
  | predefinedType | literalType | unionType | intersectionType | arrayType | tupleType
  | optionalType | restType | parenthesizedType | readonlyType | objectType | propertySignature
  | methodSignature | callSignature | constructSignature | indexSignature | mappedTypeClause
  | genericType | functionType | constructorType | typeQuery | indexTypeQuery | lookupType
  | conditionalType | inferType | templateLiteralType | templateType | thisType
  | existentialType | maybeType
  -- markup
  | markupElement | markupOpening | markupClosing | markupSelfClosing | markupAttribute
  | markupExpression | markupText | markupReference | markupNamespaceName
  deriving DecidableEq, Repr

/-- The role of a node in the node above it. -/
inductive Role
  | plain | name | value | type | body | key | left | right | operator | argument | object
  | property | index | callee | arguments | typeArguments | constructed | parameter | parameters
  | returnType | pattern | declaration | keyword | condition | consequence | alternative
  deriving DecidableEq, Repr

/-- A node of a syntax tree.  `start` and `stop` count characters of the source text. -/
structure Node where
  kind : Kind
  role : Role
  start : Nat
  stop : Nat
  text : String
  children : List Node
  deriving Repr

namespace Node

instance : Inhabited Node := ⟨⟨.token, .plain, 0, 0, "", []⟩⟩

/-- The same node in another role. -/
def withRole (role : Role) (n : Node) : Node := { n with role }

/-- A node that is not a keyword or punctuation. -/
def isNamed (n : Node) : Bool := n.kind != .token

/-- The named parts of a node. -/
def named (n : Node) : List Node := n.children.filter isNamed

/-- The first part in a role. -/
def child? (n : Node) (role : Role) : Option Node := n.children.find? (·.role == role)

/-- A part that is the keyword or punctuation given. -/
def hasToken (n : Node) (text : String) : Bool :=
  n.children.any fun c => c.kind == .token && c.text == text

mutual

/-- The number of nodes of a tree. -/
def size : Node → Nat
  | ⟨_, _, _, _, _, children⟩ => sizeAll children + 1

/-- The number of nodes of a list of trees. -/
def sizeAll : List Node → Nat
  | [] => 0
  | n :: rest => size n + sizeAll rest

end

mutual

/-- Whether two trees are equal. -/
def decEq : (m n : Node) → Decidable (m = n)
  | ⟨kind, role, start, stop, text, children⟩, ⟨kind', role', start', stop', text', children'⟩ =>
    have := decEqAll children children'
    decidable_of_iff (kind = kind' ∧ role = role' ∧ start = start' ∧ stop = stop' ∧ text = text' ∧
      children = children') (by simp)

/-- Whether two lists of trees are equal. -/
def decEqAll : (ms ns : List Node) → Decidable (ms = ns)
  | [], [] => isTrue rfl
  | [], _ :: _ => isFalse (by simp)
  | _ :: _, [] => isFalse (by simp)
  | m :: ms, n :: ns =>
    have := decEq m n
    have := decEqAll ms ns
    decidable_of_iff (m = n ∧ ms = ns) (by simp)

end

instance : DecidableEq Node := decEq

end Node

/-! ## Nodes in their place -/

/-- A node with the nodes above it, the nearest first.  Only with these can a name be looked up. -/
structure Cursor where
  node : Node
  above : List Node
  deriving DecidableEq, Repr

namespace Cursor

/-- The root of a tree. -/
def ofRoot (n : Node) : Cursor := ⟨n, []⟩

/-- What tells nodes of one text apart: where they start and end, and their form. -/
abbrev Key := Nat × Nat × Kind

/-- The key of a node. -/
def key (c : Cursor) : Key := (c.node.start, c.node.stop, c.node.kind)

/-- The form of a node. -/
def kind (c : Cursor) : Kind := c.node.kind

/-- The text of a node. -/
def text (c : Cursor) : String := c.node.text

/-- Steps down to a part of the node. -/
def down (c : Cursor) (n : Node) : Cursor := ⟨n, c.node :: c.above⟩

/-- All parts of a node. -/
def children (c : Cursor) : List Cursor := c.node.children.map c.down

/-- The named parts of a node. -/
def named (c : Cursor) : List Cursor := c.node.named.map c.down

/-- The first part in a role. -/
def child? (c : Cursor) (role : Role) : Option Cursor := (c.node.child? role).map c.down

/-- The node above. -/
def parent? (c : Cursor) : Option Cursor :=
  match c.above with
  | [] => none
  | n :: rest => some ⟨n, rest⟩

mutual

/-- The nodes of a tree, each before its parts and the parts from left to right. -/
def preorderFrom (above : List Node) : Node → List Cursor
  | ⟨kind, role, start, stop, text, children⟩ =>
    let n : Node := ⟨kind, role, start, stop, text, children⟩
    ⟨n, above⟩ :: preorderAll (n :: above) children

/-- The nodes of a list of trees. -/
def preorderAll (above : List Node) : List Node → List Cursor
  | [] => []
  | n :: rest => preorderFrom above n ++ preorderAll above rest

end

/-- The nodes at or below a node, each before its parts. -/
def preorder (c : Cursor) : List Cursor := preorderFrom c.above c.node

/-- A walk with a stack: takes the top, and puts its parts in its place.  The first argument bounds
the number of nodes that are taken. -/
def walkStack : Nat → List Cursor → List Cursor
  | 0, _ => []
  | _ + 1, [] => []
  | n + 1, c :: stack => c :: walkStack n (c.children ++ stack)

/-- The nodes at or below a node, in the order of the walk with a stack. -/
def walk (c : Cursor) : List Cursor := walkStack c.node.size [c]

end Cursor

end RouteScribe.Source
