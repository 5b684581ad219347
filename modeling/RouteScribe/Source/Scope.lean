import RouteScribe.Source.Access

/-!
# Declarations of names

The declaration that a name refers to, found by going outward through the nodes around it, and what
follows from it: the initial value of a variable, the function behind a name, the string at the end
of a chain of variables.
-/

namespace RouteScribe.Source

/-- Forms of declarations with a name that is visible in their scope. -/
def Kind.isNamedDeclaration : Kind → Bool
  | .functionDeclaration | .generatorFunctionDeclaration | .classDeclaration
  | .enumDeclaration => true
  | _ => false

namespace Cursor

/-- The parameter of a function that binds a name. -/
def parameter? (f : Cursor) (name : String) : Option Cursor :=
  let single := (f.child? .parameter).filter (·.text == name)
  let listed := (f.child? .parameters).bind fun ps => ps.named.find? fun p =>
    (p.child? .pattern).any fun target => target.kind == .identifier && target.text == name
  single <|> listed

/-- The declaration behind an export, or the node itself. -/
def exported (c : Cursor) : Cursor :=
  if c.kind == .exportStatement then (c.child? .declaration).getD c else c

/-- What a statement declares under a name. -/
def declares? (statement : Cursor) (name : String) : Option Cursor :=
  if statement.kind == .lexicalDeclaration || statement.kind == .variableDeclaration then
    statement.named.find? fun d => d.kind == .variableDeclarator &&
      (d.child? .name).any fun target => target.kind == .identifier && target.text == name
  else if statement.kind.isNamedDeclaration then
    if (statement.child? .name).any (·.text == name) then some statement else none
  else none

/-- The declaration of a name directly in a scope: a parameter if the scope is a function, or a
declaration among the parts of the scope. -/
def declaredIn? (scope : Cursor) (name : String) : Option Cursor :=
  let bound := if scope.kind.isFunction then scope.parameter? name else none
  bound <|> scope.named.findSome? fun child => child.exported.declares? name

/-- The declaration of a name in the nearest of some scopes. -/
def declaredAbove? (name : String) : List Node → Option Cursor
  | [] => none
  | scope :: rest =>
    match declaredIn? ⟨scope, rest⟩ name with
    | some d => some d
    | none => declaredAbove? name rest

/-- The declaration that a name refers to: a variable, a parameter, or a function, class or
enumeration. -/
def declaration? (c : Cursor) : Option Cursor := declaredAbove? c.text c.above

/-- The keyword that a variable is declared with. -/
def declarationKeyword (declarator : Cursor) : String :=
  match declarator.parent? with
  | none => "var"
  | some list =>
    match list.child? .keyword with
    | some k => k.text
    | none => ((list.children.head?).map Cursor.text).getD "var"

/-- The initial value of the variable that a name refers to. -/
def initializer? (c : Cursor) : Option Cursor := do
  let base := c.unwrap
  if base.kind != .identifier then none
  let d ← base.declaration?
  if d.kind == .variableDeclarator then d.child? .value else none

/-- The function that a declaration gives a name to. -/
def declaredFunction? (d : Cursor) : Option Cursor :=
  if d.kind.isFunction then some d
  else if d.kind == .variableDeclarator then
    ((d.child? .value).map unwrap).filter (·.kind.isFunction)
  else none

/-- The function that an expression is, or that it names. -/
def function? (c : Cursor) : Option Cursor := do
  let base := c.unwrap
  if base.kind.isFunction then return base
  if base.kind != .identifier then none
  (← base.declaration?).declaredFunction?

/-- The root of the tree that a node is in. -/
def root (c : Cursor) : Node := (c.above.getLast?).getD c.node

/-- The end of a chain of variables. -/
inductive ChainEnd where
  /-- A string. -/
  | string (value : String)
  /-- Another expression, or a node that was passed before. -/
  | other
  /-- A name without an initial value. -/
  | name (c : Cursor)
  deriving Repr

/-- Follows the initial values of variables from an expression without wrappers.  `seen` holds what
was passed before; the first argument bounds the number of steps. -/
def followFrom : Nat → List Key → Cursor → ChainEnd
  | 0, _, _ => .other
  | n + 1, seen, c =>
    if seen.contains c.key then .other
    else
      match c.stringValue? with
      | some s => .string s
      | none =>
        if c.kind != .identifier then .other
        else
          match c.initializer? with
          | some value => followFrom n (c.key :: seen) value.unwrap
          | none => .name c

/-- Follows the initial values of variables until a string, another expression, or a name without an
initial value is reached. -/
def follow (c : Cursor) : ChainEnd := followFrom (c.root.size + 1) [] c.unwrap

end Cursor

end RouteScribe.Source
