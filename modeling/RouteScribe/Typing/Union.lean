import RouteScribe.Typing.Store

/-!
# Unions

Unions are flat and without repetitions: objects count as equal only if they are the same object,
all other types if they are displayed alike.
-/

namespace RouteScribe.Typing

/-- What tells the members of a union apart. -/
inductive UnionKey where
  | object (id : Nat)
  | display (text : String)
  deriving DecidableEq, Repr

/-- The first value of each key, in order; `seen` holds keys that do not count any more. -/
def firstOfKeys {κ α : Type} [BEq κ] (seen : List κ) : List (κ × α) → List α
  | [] => []
  | (k, a) :: rest =>
    if seen.contains k then firstOfKeys seen rest else a :: firstOfKeys (k :: seen) rest

variable (ask : Answers)

/-- The key of a member of a union. -/
def unionKey : Ty → Infer UnionKey
  | .object id => return .object id
  | t => return .display (← ask _ (.display t))

/-- The union of some types. -/
def makeUnion (types : List Ty) : Infer Ty := do
  let keyed ← (types.flatMap Ty.alternatives).mapM fun t => do return (← unionKey ask t, t)
  return .ofAlternatives (firstOfKeys [] keyed)

/-- A type as it is in a place that can change: literals become the types they belong to. -/
def widen (t : Ty) : Infer Ty :=
  match t with
  | .union members => makeUnion ask (members.map Ty.widenLiteral)
  | t => return t.widenLiteral

/-- The members of a union that pass a test; other types stay as they are. -/
def filterUnion (test : Ty → Bool) (t : Ty) : Infer Ty :=
  match t with
  | .union members => makeUnion ask (members.filter test)
  | t => return t

/-- A type without `null` and `undefined`. -/
def stripNullish (t : Ty) : Infer Ty := filterUnion ask (fun m => !m.isNullish) t

/-- A type that may be undefined as well. -/
def withUndefined (t : Ty) : Infer Ty := makeUnion ask [t, .undefined]

/-- The type of a property when it is present. -/
def presentType (p : Property) : Infer Ty :=
  if p.optional then filterUnion ask (fun m => !m.isUndefined) p.type else return p.type

/-- The type of the elements of a list. -/
def elementType? : Ty → Infer (Option Ty)
  | .array element => return some element
  | .tuple [] => return some .any
  | .tuple elements => return some (← makeUnion ask elements)
  | _ => return none

/-- The properties of a type, none if it is no object. -/
def propertiesOf (t : Ty) : Infer (List Property) := return (← ask _ (.properties t)).getD []

/-! ## Display -/

/-- How the properties of an object are displayed. -/
def displayProperties (properties : List Property) : Infer String := do
  let members ← properties.mapM fun p => do
    let type ← ask _ (.display (← presentType ask p))
    return p.name ++ (if p.optional then "?" else "") ++ ": " ++ type ++ ";"
  return if members.isEmpty then "\x7b\x7d" else "\x7b " ++ " ".intercalate members ++ " \x7d"

/-- How a number is displayed, unless it is too long. -/
def numberText (n : Numeral) : Infer String := do
  if (← read).limited && n.isLong then throw .longNumber else return n.text

/-- How a type is displayed: an object by its name if it has one, and an object inside itself by
dots. -/
def displayText : Ty → Infer String
  | .primitive p => return p.name
  | .literal (.string s) => return "\"" ++ s ++ "\""
  | .literal (.number n) => numberText n
  | .literal (.boolean b) => return if b then "true" else "false"
  | .enumMember enumeration member _ => return enumeration ++ "." ++ member
  | .union members => do
    return " | ".intercalate (← members.mapM fun m => ask _ (.display m))
  | .array element => do
    let text ← ask _ (.display element)
    return (if element.unionMembers?.isSome then "(" ++ text ++ ")" else text) ++ "[]"
  | .tuple elements => do
    return "[" ++ ", ".intercalate (← elements.mapM fun e => ask _ (.display e)) ++ "]"
  | .map value => do
    return "Record<string, " ++ (← ask _ (.display value)) ++ ">"
  | .object id => do
    match (← objectInfo id).name with
    | some name => return name
    | none =>
      if (← read).displaying.contains id then return "\x7b...\x7d"
      else
        withReader (fun c => { c with displaying := id :: c.displaying }) do
          displayProperties ask (← propertiesOf ask (.object id))
  | .promise inner => do
    return "Promise<" ++ (← ask _ (.display inner)) ++ ">"
  | .named name [] => return name
  | .named name args => do
    return name ++ "<" ++ ", ".intercalate (← args.mapM fun a => ask _ (.display a)) ++ ">"
  | .function signature => return signature

end RouteScribe.Typing
