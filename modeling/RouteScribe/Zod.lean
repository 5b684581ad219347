import RouteScribe.Schema.Basic
import RouteScribe.Source.Access

/-!
# Zod schemas

A small part of the builders of zod: strings, numbers, truth values, lists and objects, with calls
behind them that make them optional or nullable or do not change their shape.  Everything else is
unknown.
-/

namespace RouteScribe

open Source

/-- A zod schema, without the marks behind it. -/
inductive Zod where
  | string (optional nullable : Bool)
  | number (optional nullable : Bool)
  | boolean (optional nullable : Bool)
  | array (items : Option Zod) (optional nullable : Bool)
  | object (fields : List (String × Zod)) (optional nullable : Bool)
  | unknown (optional nullable : Bool)
  deriving Repr

namespace Zod

instance : Inhabited Zod := ⟨.unknown false false⟩

/-- Whether the value may be left out. -/
def optional : Zod → Bool
  | .string o _ | .number o _ | .boolean o _ | .array _ o _ | .object _ o _ | .unknown o _ => o

/-- Whether the value may be null. -/
def nullable : Zod → Bool
  | .string _ n | .number _ n | .boolean _ n | .array _ _ n | .object _ _ n | .unknown _ n => n

/-- The schema with other marks. -/
def marked (o n : Bool) : Zod → Zod
  | .string _ _ => .string o n
  | .number _ _ => .number o n
  | .boolean _ _ => .boolean o n
  | .array items _ _ => .array items o n
  | .object fields _ _ => .object fields o n
  | .unknown _ _ => .unknown o n

mutual

/-- The schema that documents show. -/
def schema : Zod → Schema
  | .string _ n => .primitive .string none n
  | .number _ n => .primitive .number none n
  | .boolean _ n => .primitive .boolean none n
  | .array none _ n => .array (.unparsed none false) n
  | .array (some items) _ n => .array items.schema n
  | .object fields _ n => .object (fieldSchemas fields) (requiredFields fields) n
  | .unknown _ n => .unparsed (some "Unparsed Zod schema") n

/-- The schemas of fields. -/
def fieldSchemas : List (String × Zod) → List (String × Schema)
  | [] => []
  | (name, z) :: rest => (name, z.schema) :: fieldSchemas rest

/-- The names of the fields that may not be left out. -/
def requiredFields : List (String × Zod) → List String
  | [] => []
  | (name, z) :: rest =>
    if z.optional then requiredFields rest else name :: requiredFields rest

end

theorem fieldSchemas_eq_map (fields : List (String × Zod)) :
    fieldSchemas fields = fields.map fun f => (f.1, f.2.schema) := by
  induction fields with
  | nil => rfl
  | cons f rest ih => rw [fieldSchemas, ih, List.map_cons]

theorem requiredFields_eq_map (fields : List (String × Zod)) :
    requiredFields fields = (fields.filter fun f => !f.2.optional).map (·.1) := by
  induction fields with
  | nil => rfl
  | cons f rest ih =>
    rw [requiredFields, List.filter_cons, ih]
    cases f.2.optional <;> rfl

/-! ## Reading builders -/

/-- Calls behind a builder that do not change the shape. -/
def refinements : List String :=
  ["min", "max", "length", "email", "url", "uuid", "cuid", "regex", "int", "positive", "negative",
   "nonnegative", "nonpositive", "trim", "toLowerCase", "toUpperCase", "nonempty", "describe",
   "datetime", "startsWith", "endsWith"]

/-- The object that builders are called on: `z`, or a member named `z`. -/
def isReceiver (c : Cursor) : Bool :=
  let name := c.unwrap.text
  name == "z" || name.endsWith ".z"

/-- What a call behind a builder says about the value: whether it may be left out, and whether it
may be null. -/
def mark? (call : String) : Option (Bool × Bool) :=
  if call == "optional" then some (true, false)
  else if call == "nullable" then some (false, true)
  else if call == "nullish" then some (true, true)
  else if refinements.contains call then some (false, false)
  else none

/-- The fields of an object literal, each read on its own. -/
def fieldsOf (read : Option Cursor → Zod) (shape : Cursor) : List (String × Zod) :=
  let pairs := shape.named.filter (·.kind == .pair)
  Table.ofList (pairs.filterMap fun p =>
    ((p.child? .key).bind Cursor.memberKey?).map fun name => (name, read (p.child? .value)))

/-- The object that a builder call describes, if it is given an object literal. -/
def objectOf (read : Option Cursor → Zod) (call : Cursor) : Zod :=
  match call.callArguments.head?.map Cursor.unwrap with
  | some shape =>
    if shape.kind == .object then .object (fieldsOf read shape) false false
    else .unknown false false
  | none => .unknown false false

/-- What a builder call describes. -/
def build? (read : Option Cursor → Zod) (name : String) (call : Cursor) : Option Zod :=
  match name with
  | "string" => some (.string false false)
  | "number" => some (.number false false)
  | "boolean" => some (.boolean false false)
  | "array" =>
    some (.array (call.callArguments.head?.map fun item => read (some item)) false false)
  | "object" => some (objectOf read call)
  | _ => none

/-- Reads a chain of calls down to its builder, with the marks that were met; `read` reads what
stands inside the builder, and the first argument bounds the length of the chain. -/
def chainFrom (read : Option Cursor → Zod) : Nat → (optional nullable : Bool) → Cursor → Zod
  | 0, o, n, _ => .unknown o n
  | bound + 1, o, n, c =>
    if c.kind != .callExpression then .unknown o n
    else
      match c.calledMember? with
      | none => .unknown o n
      | some (name, receiver) =>
        if isReceiver receiver then ((build? read name c).map (marked o n)).getD (.unknown o n)
        else
          match mark? name with
          | some (o', n') => chainFrom read bound (o || o') (n || n') receiver.unwrap
          | none => .unknown o n

/-- Reads an expression; the first argument bounds how deep builders stand inside builders. -/
def parseFrom : Nat → Option Cursor → Zod
  | 0, _ => .unknown false false
  | _ + 1, none => .unknown false false
  | depth + 1, some c => chainFrom (parseFrom depth) (c.node.size + 1) false false c.unwrap

/-- Reads an expression such as `z.string().email().optional()`. -/
def parse (c : Cursor) : Zod := parseFrom (c.node.size + 1) (some c)

/-- Whether an expression is a call of the builder for objects. -/
def isObjectCall (c : Cursor) : Bool :=
  let base := c.unwrap
  base.kind == .callExpression &&
    base.calledMember?.any fun (name, receiver) => name == "object" && isReceiver receiver

/-- The schema of a call of the builder for objects, if it is given an object literal. -/
def objectCallSchema? (c : Cursor) : Option Schema :=
  match objectOf (parseFrom (c.node.size + 1)) c.unwrap with
  | .object fields o n => some (Zod.object fields o n).schema
  | _ => none

end Zod

end RouteScribe
