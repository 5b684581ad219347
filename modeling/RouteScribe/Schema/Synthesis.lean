import RouteScribe.Schema.Basic

/-!
# From types to schemas

One algorithm turns types into schemas.  It sees a type only through its `View`, so it serves types
that were inferred from source and types that are read from their text alike.  The identities of
the objects that are being described are passed down, and a reference to one of them becomes the
recursive marker, so self-referential types come to an end.
-/

namespace RouteScribe.Schema

/-- A property of an object type. -/
structure Member (τ : Type) where
  name : String
  optional : Bool
  type : τ
  deriving Repr

/-- What a type is, one level deep. -/
inductive View (τ κ : Type) where
  | union (members : List τ)
  | primitive (kind : PrimitiveKind)
  | undefined
  | array (element : τ)
  | map (value : τ)
  /-- An object, with what tells it apart from others, if it can refer to itself. -/
  | object (identity : Option κ) (members : List (Member τ))
  /-- A type that is known by its description only. -/
  | other (description : String)

/-- The schema of a union from the schemas of its members that are not null: equal ones are merged,
and a single one stands for the union. -/
def ofVariants (nullable : Bool) (schemas : List Schema) : Schema :=
  match dedupe schemas with
  | [s] => if nullable then s.orNull else s
  | variants => .union variants nullable

/-- The properties of an object schema, one per name: a repeated name keeps its first place and
takes its last schema. -/
def ofProperties (members : List (String × Bool × Schema)) : Schema :=
  .object (Table.ofList (members.map fun m => (m.1, m.2.2)))
    ((members.filter fun m => !m.2.1).map (·.1)) false

section

variable {m : Type → Type} [Monad m] {τ κ : Type} [BEq κ]

/-- The schema of a type from the schemas of the types in it.  `nullish` picks the union members that
only make the schema nullable, `expanding` holds the objects that are being described, and `describe`
gives the schemas of types in it. -/
def describeWith (view : τ → m (View τ κ)) (nullish : τ → Bool) (describe : List κ → τ → m Schema)
    (expanding : List κ) (t : τ) : m Schema := do
  let describeMembers (inside : List κ) (members : List (Member τ)) : m Schema := do
    let properties ← members.mapM fun p => do
      let s ← describe inside p.type
      return (p.name, p.optional, s)
    return ofProperties properties
  match ← view t with
  | .union members =>
    let nullable := members.any nullish
    match members.filter (fun p => !nullish p) with
    | [] => return .unparsed none true
    | [p] => do
      let s ← describe expanding p
      return if nullable then s.orNull else s
    | rest => return ofVariants nullable (← rest.mapM (describe expanding))
  | .primitive kind => return .primitive kind none false
  | .undefined => return .unparsed none true
  | .array element => return .array (← describe expanding element) false
  | .map value => return .map (← describe expanding value) false
  | .object none members => describeMembers expanding members
  | .object (some id) members =>
    if expanding.contains id then return .recursive
    else describeMembers (id :: expanding) members
  | .other description => return .unparsed (some ("Unparsed type: " ++ description)) false

/-- The schema of a type; `exhausted` answers when the levels of description are used up. -/
def synthesize (view : τ → m (View τ κ)) (nullish : τ → Bool) (exhausted : m Schema) :
    Nat → List κ → τ → m Schema
  | 0, _, _ => exhausted
  | depth + 1, expanding, t =>
    describeWith view nullish (synthesize view nullish exhausted depth) expanding t

end

end RouteScribe.Schema
