import RouteScribe.Document.Json
import RouteScribe.Table

/-!
# Schemas

The schema of a value that a route reads or sends, close to what a document shows: primitives,
lists, objects with named properties, maps, unions, and a leaf for types that could not be read.
Every node may admit `null` besides its own values.
-/

namespace RouteScribe

open Document (Value)

/-- The primitive kinds of values. -/
inductive PrimitiveKind where
  | string | number | boolean | null
  deriving DecidableEq, Repr, Inhabited

def PrimitiveKind.name : PrimitiveKind → String
  | .string => "string"
  | .number => "number"
  | .boolean => "boolean"
  | .null => "null"

inductive Schema where
  | primitive (kind : PrimitiveKind) (format : Option String) (nullable : Bool)
  | array (items : Schema) (nullable : Bool)
  | object (properties : List (String × Schema)) (required : List String) (nullable : Bool)
  /-- An object with arbitrary names. -/
  | map (values : Schema) (nullable : Bool)
  | union (variants : List Schema) (nullable : Bool)
  /-- A type that is not understood, with the best description there is. -/
  | unparsed (description : Option String) (nullable : Bool)
  deriving Repr, Inhabited

namespace Schema

/-- A plain text. -/
def text : Schema := .primitive .string none false

/-- Raw bytes. -/
def binary : Schema := .primitive .string (some "binary") false

/-- Stands for an object that is already being described further up. -/
def recursive : Schema := .unparsed (some "...recursive...") false

def nullable : Schema → Bool
  | .primitive _ _ n | .array _ n | .object _ _ n | .map _ n | .union _ n | .unparsed _ n => n

/-- The schema, admitting `null` as well. -/
def orNull : Schema → Schema
  | .primitive k f _ => .primitive k f true
  | .array s _ => .array s true
  | .object ps rs _ => .object ps rs true
  | .map s _ => .map s true
  | .union vs _ => .union vs true
  | .unparsed d _ => .unparsed d true

@[simp] theorem nullable_orNull (s : Schema) : s.orNull.nullable = true := by
  cases s <;> rfl

@[simp] theorem orNull_orNull (s : Schema) : s.orNull.orNull = s.orNull := by
  cases s <;> rfl

/-- The mark of a node that admits `null`. -/
def nullableField (n : Bool) : List (String × Value) :=
  if n then [("nullable", .flag true)] else []

mutual

/-- The schema as it stands in a document. -/
def toValue : Schema → Value
  | .primitive kind format n =>
    let formatField := match format with
      | some f => if f = "" then [] else [("format", .text f)]
      | none => []
    .object ([("type", .text kind.name)] ++ formatField ++ nullableField n)
  | .array items n => .object ([("type", .text "array"), ("items", items.toValue)] ++ nullableField n)
  | .object properties required n =>
    let requiredField : List (String × Value) :=
      if required.isEmpty then [] else [("required", .list (required.map .text))]
    .object ([("type", .text "object"), ("properties", .object (propertyValues properties))] ++
      requiredField ++ nullableField n)
  | .map values n =>
    .object ([("type", .text "object"), ("additionalProperties", values.toValue)] ++ nullableField n)
  | .union variants n => .object ([("anyOf", .list (variantValues variants))] ++ nullableField n)
  | .unparsed description n =>
    let descriptionField := match description with
      | some d => [("description", .text d)]
      | none => []
    .object (descriptionField ++ nullableField n)

def propertyValues : List (String × Schema) → List (String × Value)
  | [] => []
  | (name, s) :: rest => (name, s.toValue) :: propertyValues rest

def variantValues : List Schema → List Value
  | [] => []
  | s :: rest => s.toValue :: variantValues rest

end

/-- A text that two schemas share exactly when a document cannot tell them apart, the order of
properties aside. -/
def structuralKey (s : Schema) : String := s.toValue.orderlessKey

/-- Drops every schema whose key has occurred before; `seen` holds the keys that have. -/
def dedupeFrom (seen : List String) : List Schema → List Schema
  | [] => []
  | s :: rest =>
    if s.structuralKey ∈ seen then dedupeFrom seen rest
    else s :: dedupeFrom (s.structuralKey :: seen) rest

/-- The first schema of each key, in order. -/
def dedupe (schemas : List Schema) : List Schema := dedupeFrom [] schemas

end Schema

end RouteScribe
