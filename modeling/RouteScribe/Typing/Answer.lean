import RouteScribe.Typing.Expression

/-!
# Answers

The queries of inference answered, by recursion on a bound for how deep queries may ask further
queries, and the schemas of inferred types.

The bound does not decide which types have an answer: expressions and aliases that refer to
themselves are cut off where they meet themselves.  Only types that unfold for ever reach every
bound.
-/

namespace RouteScribe.Typing

open Source

/-- The answer to a query, given the answers to the queries it asks. -/
def answerWith (ask : Answers) : (α : Type) → Query α → Infer α
  | _, .typeOf c => resolvedType ask c
  | _, .denoted c => denotation ask c
  | _, .properties t => objectProperties ask t
  | _, .display t => displayText ask t

/-- Answers to queries that ask further queries to a depth. -/
def answer : Nat → Answers
  | 0, _, _ => throw .exhausted
  | depth + 1, α, q => answerWith (answer depth) α q

/-- The answers that the analysis uses: queries ask further queries as deep as the context
allows. -/
def ask : Answers := fun α q => do answer (← read).depth α q

/-- The type of an expression. -/
def typeOf (c : Cursor) : Infer Ty := ask _ (.typeOf c)

/-- The type that a type expression denotes. -/
def denoted (c : Cursor) : Infer Ty := ask _ (.denoted c)

/-- How a type is displayed. -/
def display (t : Ty) : Infer String := ask _ (.display t)

/-! ## Schemas -/

/-- What a type is, as the description of schemas sees it. -/
def view (t : Ty) : Infer (Schema.View Ty Nat) := do
  match t.unionMembers? with
  | some members => return .union members
  | none =>
    if t.isStringLike then return .primitive .string
    else if t.isNumberLike then return .primitive .number
    else if t.isBooleanLike then return .primitive .boolean
    else if t.isNull then return .primitive .null
    else if t.isUndefined then return .undefined
    else
      match ← elementType? ask t, t.mapValue? with
      | some element, _ => return .array element
      | none, some value => return .map value
      | none, none =>
        match t, ← ask _ (.properties t) with
        | .object id, some properties => return .object (some id) properties
        | _, some properties => return .object none properties
        | _, none => return .other (← display t)

/-- The schema of a type. -/
def schemaOf (t : Ty) : Infer Schema := do
  Schema.synthesize view Ty.isNullish (throw .exhausted) (← read).depth [] t

/-- Runs inference beside a file, from a store, with queries that ask further queries to a depth.
Integers of any length are displayed. -/
def Infer.runTo {α : Type} (depth : Nat) (root : Cursor) (store : Store) (x : Infer α) :
    Except Failure α × Store :=
  (x.run (Context.ofRoot depth root)).run.run store

/-- Runs inference on a file, from a store, with queries that ask further queries to a depth. -/
def Infer.runOn {α : Type} (depth : Nat) (root : Cursor) (store : Store) (x : Infer α) :
    Except Failure α × Store :=
  (x.run (Context.ofFile depth root)).run.run store

/-- How deep queries may ask further queries when a file is analyzed. -/
def depthBound : Nat := 2000

end RouteScribe.Typing
