import RouteScribe.Source.Node

/-!
# Parts of expressions

What later stages ask of single nodes: an expression without its parentheses and casts, the value of
a string, the arguments of a call, the name and the object of a member access, the name of a member.
-/

namespace RouteScribe.Source

/-- Forms of functions. -/
def Kind.isFunction : Kind → Bool
  | .arrowFunction | .functionExpression | .functionDeclaration | .generatorFunction
  | .generatorFunctionDeclaration | .methodDefinition => true
  | _ => false

/-- Forms that only wrap another expression: parentheses and casts. -/
def Kind.isWrapper : Kind → Bool
  | .parenthesized | .asExpression | .satisfiesExpression | .nonNullExpression
  | .typeAssertion => true
  | _ => false

namespace Cursor

/-- The expression inside a wrapper.  The type of an assertion in angle brackets stands in front of
it, all other types behind it. -/
def wrapped? (c : Cursor) : Option Cursor :=
  if !c.kind.isWrapper then none
  else if c.kind == .typeAssertion then c.named.getLast?
  else c.named.head?

/-- Removes wrappers, at most a number of them. -/
def unwrapFrom : Nat → Cursor → Cursor
  | 0, c => c
  | n + 1, c =>
    match c.wrapped? with
    | some inner => unwrapFrom n inner
    | none => c

/-- The expression without parentheses and casts around it. -/
def unwrap (c : Cursor) : Cursor := unwrapFrom c.node.size c

/-- Text without its first and last character. -/
def inner (s : String) : String := String.ofList (s.toList.drop 1).dropLast

/-- The value of a string, or of a template without expressions in it, as it is written. -/
def stringValue? (c : Cursor) : Option String :=
  match c.kind with
  | .string => some (inner c.text)
  | .templateString =>
    if c.node.children.any (·.kind == .templateSubstitution) then none else some (inner c.text)
  | _ => none

/-- The arguments of a call in parentheses. -/
def callArguments (c : Cursor) : List Cursor :=
  match c.child? .arguments with
  | some args => if args.kind == .arguments then args.named else []
  | none => []

/-- What a member access or an element access is applied to. -/
def object? (c : Cursor) : Option Cursor := c.child? .object

/-- The name in a member access. -/
def memberName? (c : Cursor) : Option String :=
  if c.kind == .memberExpression then (c.child? .property).map Cursor.text else none

/-- The name and the object of a member access. -/
def member? (c : Cursor) : Option (String × Cursor) := do
  return (← c.memberName?, ← c.object?)

/-- The name in a member access that a call is made on. -/
def calledMember? (c : Cursor) : Option (String × Cursor) := do
  (← c.child? .callee).member?

/-- The name of a member, unless it is computed. -/
def memberKey? (c : Cursor) : Option String :=
  match c.kind with
  | .propertyName | .identifier | .shorthandProperty | .privateName | .number => some c.text
  | _ => c.stringValue?

/-- The name of the first parameter of a function, if it is bound to a plain name. -/
def firstParameter? (c : Cursor) : Option String :=
  let plain (p : Cursor) : Option String := if p.kind == .identifier then some p.text else none
  match c.child? .parameter with
  | some single => plain single
  | none => do
    let first ← (← c.child? .parameters).named.head?
    plain ((first.child? .pattern).getD first)

end Cursor

end RouteScribe.Source
