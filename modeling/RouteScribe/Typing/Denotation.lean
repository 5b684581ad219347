import RouteScribe.Typing.Enumeration
import RouteScribe.Typing.Union

/-!
# What type expressions denote

The types that annotations, aliases and interfaces stand for.  A type that is not understood is
known by its text.
-/

namespace RouteScribe.Typing

open Source

variable (ask : Answers)

/-- The type that a type expression denotes, or any type if there is none. -/
def denotedBy (c : Option Cursor) : Infer Ty :=
  match c with
  | some c => ask _ (.denoted c)
  | none => return .any

/-- The types that some type expressions denote. -/
def denotedAll (cs : List Cursor) : Infer (List Ty) := cs.mapM fun c => ask _ (.denoted c)

/-- The types given to a generic. -/
def typeArguments (c : Cursor) : Infer (List Ty) :=
  match c.child? .typeArguments with
  | some args => denotedAll ask args.named
  | none => return []

/-- The type with the value of a literal as its only value. -/
def literalType (c : Option Cursor) : Infer Ty :=
  match c with
  | none => return .any
  | some c =>
    match c.kind with
    | .string | .templateString => return .literal (.string (c.stringValue?.getD ""))
    | .trueLiteral => return .literal (.boolean true)
    | .falseLiteral => return .literal (.boolean false)
    | .nullLiteral => return .null
    | .undefinedLiteral => return .undefined
    | _ => do
      match ← Infer.ofNumbers (constantValue? c) with
      | some (.number n) => return .literal (.number n)
      | _ => return .any

/-! ## Members of object types -/

/-- The properties that the members between braces declare. -/
def declaredProperties (body : Cursor) : Infer (List Property) := do
  let members := body.named.filter fun m =>
    m.kind == .propertySignature || m.kind == .methodSignature
  let properties ← members.mapM fun m => do
    match (m.child? .name).bind Cursor.memberKey? with
    | none => return []
    | some name =>
      let optional := m.node.hasToken "?"
      let type ← if m.kind == .methodSignature then pure (Ty.function m.text)
        else denotedBy ask (m.child? .type)
      let type ← if optional then withUndefined ask type else pure type
      return [{ name, optional, type : Property }]
  return properties.flatten

/-- The type of the members that stand for many names, if there are any. -/
def indexedValue? (body : Cursor) : Infer (Option Ty) := do
  match body.named.find? (·.kind == .indexSignature) with
  | none => return none
  | some m => return some (← denotedBy ask (m.child? .type))

/-- The type of members between braces: a map if the only members stand for many names. -/
def objectOf (body : Cursor) (name : Option String) : Infer Ty := do
  let named := body.named.any fun m =>
    m.kind == .propertySignature || m.kind == .methodSignature
  let value ← if named then pure none else indexedValue? ask body
  match value with
  | some value => return .map value
  | none => newObject name (.members body)

/-- Properties by name: a repeated name keeps its first place and takes the last property. -/
def mergeProperties (properties : List Property) : List Property :=
  (Table.ofList (properties.map fun p => (p.name, p))).map (·.2)

/-- The properties of an interface: those of the types it extends, then its own. -/
def interfaceProperties (declaration : Cursor) : Infer (List Property) := do
  let clauses := declaration.named.filter (·.kind == .extendsTypeClause)
  let inherited ← (clauses.flatMap Cursor.named).mapM fun base => do
    propertiesOf ask (← ask _ (.denoted base))
  let own ← match declaration.child? .body with
    | some body => declaredProperties ask body
    | none => pure []
  return mergeProperties (inherited.flatten ++ own)

/-- A property as a mapping changes it. -/
def mapProperty (how : Mapping) (p : Property) : Infer Property := do
  match how with
  | .optional => return { p with optional := true, type := ← withUndefined ask p.type }
  | .required => return { p with optional := false, type := ← presentType ask p }
  | .unchanged => return p

/-- Works out the properties of a shape. -/
def shapeProperties : Shape → Infer (List Property)
  | .known properties => return properties
  | .interface declaration => interfaceProperties ask declaration
  | .members body => declaredProperties ask body
  | .mapped how source => do (← propertiesOf ask source).mapM (mapProperty ask how)
  | .merged parts => do
    let all ← parts.mapM (propertiesOf ask)
    return mergeProperties all.flatten

/-- The properties of an object type.  They are worked out once; while that goes on, the object has
none. -/
def objectProperties : Ty → Infer (Option (List Property))
  | .object id => do
    match (← objectInfo id).shape with
    | .known properties => return some properties
    | shape =>
      modifyObject id fun o => { o with shape := .known [] }
      let properties ← shapeProperties ask shape
      modifyObject id fun o => { o with shape := .known properties }
      return some properties
  | _ => return none

/-! ## Names of types -/

/-- The type that the declaration of an alias or interface gives. -/
def declaredType (name : String) (declaration : Cursor) : Infer Ty := do
  if declaration.kind == .interfaceDeclaration then
    newObject (some name) (.interface declaration)
  else
    match declaration.child? .value with
    | some value =>
      if value.kind == .objectType then objectOf ask value (some name)
      else ask _ (.denoted value)
    | none => return .any

/-- The type that an alias stands for.  It is resolved once, and an alias inside itself is known by
its name only.  An object without a name takes that of the alias. -/
def aliasType (name : String) (declaration : Cursor) : Infer Ty := do
  match (← get).aliases.lookup name with
  | some t => return t
  | none =>
    if (← read).resolvingAliases.contains name then return .named name []
    else
      let t ← withReader (fun c => { c with resolvingAliases := name :: c.resolvingAliases })
        (declaredType ask name declaration)
      if let .object id := t then
        modifyObject id fun o => { o with name := o.name <|> some name }
      modify fun s => { s with aliases := (name, t) :: s.aliases }
      return t

/-- The members of an enumeration as types. -/
def enumTypes (name : String) (declaration : Cursor) : Infer (List Ty) := do
  let members ← Infer.ofNumbers (enumMembers declaration)
  return members.map fun m => .enumMember name m.1 m.2

/-- One member of an enumeration as a type. -/
def enumMemberType (declaration : Cursor) (member : String) : Infer Ty := do
  match (← Infer.ofNumbers (enumMembers declaration)).lookup member with
  | none => return .any
  | some value =>
    return .enumMember (((declaration.child? .name).map Cursor.text).getD "") member value

/-- The type with a name. -/
def namedType (name : String) (args : List Ty) : Infer Ty := do
  let c ← read
  match c.aliases.lookup name, c.enums.lookup name with
  | some declaration, _ => aliasType ask name declaration
  | none, some declaration => makeUnion ask (← enumTypes name declaration)
  | none, none =>
    match name with
    | "String" => return .string
    | "Number" => return .number
    | "Boolean" => return .boolean
    | "Object" => return .primitive .object
    | _ => return .named name args

/-- The type with a name of several parts: a member of an enumeration, or a name. -/
def nestedType (c : Cursor) : Infer Ty := do
  match c.text.splitOn "." with
  | [enumeration, member] =>
    match (← read).enums.lookup enumeration with
    | some declaration => enumMemberType declaration member
    | none => return .named c.text []
  | _ => return .named c.text []

/-- An object with one property per key, or a map if the keys are not all known. -/
def recordType (key value : Ty) : Infer Ty :=
  match key.alternatives.mapM Ty.stringValue? with
  | some names =>
    newObject none (.known (names.map fun name => { name, optional := false, type := value }))
  | none => return .map value

/-- The properties of a type with names among the keys, or those with other names. -/
def selectedType (keep : Bool) (source keys : Ty) : Infer Ty := do
  let names := keys.alternatives.filterMap Ty.stringValue?
  let properties ← propertiesOf ask source
  newObject none (.known (properties.filter fun p => names.contains p.name == keep))

/-- The type of a generic with some types.  Some generics are understood, all others are names. -/
def genericOf (name : String) (args : List Ty) : Infer Ty :=
  match name, args with
  | "Array", t :: _ | "ReadonlyArray", t :: _ | "Set", t :: _ | "ReadonlySet", t :: _ =>
    return .array t
  | "Promise", t :: _ => return .promise t
  | "Record", [key, value] => recordType key value
  | "Partial", t :: _ => newObject none (.mapped .optional t)
  | "Required", t :: _ => newObject none (.mapped .required t)
  | "Readonly", t :: _ => newObject none (.mapped .unchanged t)
  | "NonNullable", t :: _ => stripNullish ask t
  | "Pick", [source, keys] => selectedType ask true source keys
  | "Omit", [source, keys] => selectedType ask false source keys
  | _, _ => namedType ask name args

/-- A generic with the types given to it. -/
def genericType (c : Cursor) : Infer Ty := do
  let name := ((c.child? .name).map Cursor.text).getD ""
  genericOf ask name (← typeArguments ask c)

/-- The type of values that belong to all of some types: the objects among them together. -/
def intersectionType (parts : List Ty) : Infer Ty := do
  let objects ← parts.filterM fun p => do return (← ask _ (.properties p)).isSome
  match objects, parts with
  | [], [] => return .any
  | [], first :: _ => return first
  | _, _ => newObject none (.merged objects)

/-- The type that a type expression denotes. -/
def denotation (c : Cursor) : Infer Ty :=
  match c.kind with
  | .ascription | .parenthesizedType | .readonlyType | .assertsAscription =>
    denotedBy ask c.named.head?
  | .predefinedType => return ((Primitive.ofName? c.text).map Ty.primitive).getD .any
  | .literalType => literalType c.named.head?
  | .nullLiteral => return .null
  | .undefinedLiteral => return .undefined
  | .unionType => do makeUnion ask (← denotedAll ask c.named)
  | .intersectionType => do intersectionType ask (← denotedAll ask c.named)
  | .arrayType => return .array (← denotedBy ask c.named.head?)
  | .tupleType => return .tuple (← denotedAll ask c.named)
  | .objectType | .interfaceBody => objectOf ask c none
  | .typeName => namedType ask c.text []
  | .nestedTypeName => nestedType c
  | .genericType => genericType ask c
  | .functionType | .constructorType => return .function c.text
  | .typeQuery =>
    match c.named.head? with
    | some target => if target.kind == .identifier then ask _ (.typeOf target) else return .any
    | none => return .any
  | .thisType => return .named "this" []
  | _ => return .named c.text []

end RouteScribe.Typing
