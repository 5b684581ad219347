import RouteScribe.Source.Scope
import RouteScribe.Typing.Type

/-!
# The store of object types

Object types live in a store: each has a name, once an alias gave it one, and a shape whose
properties are worked out when they are first asked for.  The store also keeps the aliases that were
resolved, so that an alias stands for one object wherever it is used.

Inference reads the declarations of the file and what is being worked out at the moment, and changes
the store.  What it asks of itself are the four queries of `Query`.
-/

namespace RouteScribe.Typing

open Source

/-- How the properties of one object make those of another. -/
inductive Mapping where
  | optional | required | unchanged
  deriving DecidableEq, Repr

/-- The properties of an object type, or what they are to be worked out from. -/
inductive Shape where
  | known (properties : List Property)
  /-- The members of an interface, after those of the types it extends. -/
  | interface (declaration : Cursor)
  /-- The members between the braces of a type. -/
  | members (body : Cursor)
  /-- The properties of another type, changed. -/
  | mapped (how : Mapping) (source : Ty)
  /-- The properties of several types together. -/
  | merged (parts : List Ty)
  deriving Repr

/-- An entry of the store. -/
structure ObjectInfo where
  name : Option String
  shape : Shape
  deriving Repr

/-- The object types that were met, and the aliases that were resolved. -/
structure Store where
  objects : Array ObjectInfo
  aliases : List (String × Ty)
  deriving Repr

/-- The store before anything was inferred. -/
def Store.empty : Store := ⟨#[], []⟩

/-- What inference reads. -/
structure Context where
  /-- The declarations of aliases and interfaces, by name; the first of a name counts. -/
  aliases : List (String × Cursor)
  /-- The declarations of enumerations, by name; the first of a name counts. -/
  enums : List (String × Cursor)
  /-- The expressions whose types are being worked out. -/
  resolving : List Cursor.Key
  /-- The aliases that are being resolved. -/
  resolvingAliases : List String
  /-- The objects that are being displayed. -/
  displaying : List Nat
  /-- How deep queries may ask further queries. -/
  depth : Nat
  /-- Whether integers that are too long for decimal text cannot be displayed. -/
  limited : Bool
  deriving Repr

/-- The declarations of the given forms below a node, by name. -/
def declarationsOf (kinds : List Kind) (root : Cursor) : List (String × Cursor) :=
  (root.walk.filter fun c => kinds.contains c.kind).map fun c =>
    (((c.child? .name).map Cursor.text).getD "", c)

/-- What inference reads at the start: the declarations of a file.  Integers of any length are
displayed. -/
def Context.ofRoot (depth : Nat) (root : Cursor) : Context where
  aliases := declarationsOf [.typeAliasDeclaration, .interfaceDeclaration] root
  enums := declarationsOf [.enumDeclaration] root
  resolving := []
  resolvingAliases := []
  displaying := []
  depth := depth
  limited := false

/-- What the analysis of a file reads at the start: integers that are too long are not displayed. -/
def Context.ofFile (depth : Nat) (root : Cursor) : Context :=
  { Context.ofRoot depth root with limited := true }

/-- Why an answer is missing. -/
inductive Failure where
  /-- A numeric literal without a value. -/
  | notANumber (text : String)
  /-- A status code that is larger than every integer. -/
  | infiniteStatus
  /-- An integer with too many digits to be displayed. -/
  | longNumber
  /-- The bound on the nesting of queries was reached. -/
  | exhausted
  deriving DecidableEq, Repr

/-- Inference: it reads a context, may fail, and changes the store even if it fails. -/
abbrev Infer (α : Type) := ReaderT Context (ExceptT Failure (StateM Store)) α

/-- Inference that reads numbers. -/
def Infer.ofNumbers {α : Type} : Except Numeral.NotANumber α → Infer α
  | .ok a => return a
  | .error e => throw (.notANumber e.text)

/-- What inference asks of itself. -/
inductive Query : Type → Type
  /-- The type of an expression. -/
  | typeOf (c : Cursor) : Query Ty
  /-- The type that a type expression denotes. -/
  | denoted (c : Cursor) : Query Ty
  /-- The properties of an object type. -/
  | properties (t : Ty) : Query (Option (List Property))
  /-- How a type is displayed. -/
  | display (t : Ty) : Query String

/-- Answers to all queries. -/
abbrev Answers := ∀ α : Type, Query α → Infer α

/-! ## Objects -/

/-- A new object type. -/
def newObject (name : Option String) (shape : Shape) : Infer Ty := do
  let s ← get
  set { s with objects := s.objects.push ⟨name, shape⟩ }
  return .object s.objects.size

/-- The entry of an object type. -/
def objectInfo (id : Nat) : Infer ObjectInfo := do
  return ((← get).objects[id]?).getD ⟨none, .known []⟩

/-- Changes the entry of an object type. -/
def modifyObject (id : Nat) (f : ObjectInfo → ObjectInfo) : Infer Unit :=
  modify fun s => { s with objects := s.objects.modify id f }

/-- The name under which a type is known: that of an object with an alias, of a promise, or of a
type that is known by its name only. -/
def symbolName? : Ty → Infer (Option String)
  | .object id => return (← objectInfo id).name
  | .promise _ => return some "Promise"
  | .named name _ => return some name
  | _ => return none

end RouteScribe.Typing
