import RouteScribe.Numeral.Basic
import RouteScribe.Schema.Synthesis

/-!
# Inferred types

The types that are inferred from a source file.  An object type is a reference to an entry of a
store, because two objects of the same shape are still two types; all other types are told apart by
how they are displayed.
-/

namespace RouteScribe.Typing

/-- Types with a name of one word. -/
inductive Primitive where
  | string | number | boolean | bigint | symbol | null | undefined | void | any | unknown | never
  | object
  deriving DecidableEq, Repr, Inhabited

namespace Primitive

/-- The name of a primitive type. -/
def name : Primitive → String
  | .string => "string"
  | .number => "number"
  | .boolean => "boolean"
  | .bigint => "bigint"
  | .symbol => "symbol"
  | .null => "null"
  | .undefined => "undefined"
  | .void => "void"
  | .any => "any"
  | .unknown => "unknown"
  | .never => "never"
  | .object => "object"

/-- All primitive types. -/
def all : List Primitive :=
  [.string, .number, .boolean, .bigint, .symbol, .null, .undefined, .void, .any, .unknown, .never,
    .object]

/-- The primitive type with a name. -/
def ofName? (name : String) : Option Primitive := all.find? (·.name == name)

end Primitive

/-- A type with a single value that is known. -/
inductive Literal where
  | string (value : String)
  | number (value : Numeral)
  | boolean (value : Bool)
  deriving DecidableEq, Repr

/-- The type that a literal belongs to. -/
def Literal.base : Literal → Primitive
  | .string _ => .string
  | .number _ => .number
  | .boolean _ => .boolean

/-- The value of a constant expression. -/
inductive Constant where
  | text (value : String)
  | number (value : Numeral)
  deriving DecidableEq, Repr

/-- Inferred types. -/
inductive Ty where
  | primitive (p : Primitive)
  | literal (l : Literal)
  /-- A member of an enumeration, with its value if that is known. -/
  | enumMember (enumeration member : String) (value : Option Constant)
  | union (members : List Ty)
  | array (element : Ty)
  | tuple (elements : List Ty)
  /-- An object with arbitrary names. -/
  | map (value : Ty)
  /-- An object with known properties, by its place in the store. -/
  | object (id : Nat)
  | promise (inner : Ty)
  /-- A type that is known by its name only. -/
  | named (name : String) (args : List Ty)
  | function (signature : String)
  deriving Repr

namespace Ty

instance : Inhabited Ty := ⟨.primitive .any⟩

/-- The type about which nothing is known. -/
def any : Ty := .primitive .any
def string : Ty := .primitive .string
def number : Ty := .primitive .number
def boolean : Ty := .primitive .boolean
def null : Ty := .primitive .null
def undefined : Ty := .primitive .undefined

/-- A function about which nothing else is known. -/
def someFunction : Ty := .function "(...args: any[]) => any"

/-- The members of a union. -/
def unionMembers? : Ty → Option (List Ty)
  | .union members => some members
  | _ => none

/-- The members of a union, or the type alone. -/
def alternatives : Ty → List Ty
  | .union members => members
  | t => [t]

mutual

/-- A test that holds of a type that is no union, and of all members of a union. -/
def every (test : Ty → Bool) : Ty → Bool
  | .union members => everyOf test members
  | t => test t

/-- A test that holds of all types of a list, or of their members. -/
def everyOf (test : Ty → Bool) : List Ty → Bool
  | [] => true
  | t :: rest => every test t && everyOf test rest

end

/-- Strings, string literals and members of enumerations with a string as value. -/
def isStringLike (t : Ty) : Bool :=
  t.every fun
    | .primitive .string | .literal (.string _) | .enumMember _ _ (some (.text _)) => true
    | _ => false

/-- Numbers, number literals and all other members of enumerations. -/
def isNumberLike (t : Ty) : Bool :=
  t.every fun
    | .primitive .number | .primitive .bigint | .literal (.number _) => true
    | .enumMember _ _ (some (.text _)) => false
    | .enumMember _ _ _ => true
    | _ => false

/-- Truth values and their literals. -/
def isBooleanLike (t : Ty) : Bool :=
  t.every fun
    | .primitive .boolean | .literal (.boolean _) => true
    | _ => false

def isNull : Ty → Bool
  | .primitive .null => true
  | _ => false

def isUndefined : Ty → Bool
  | .primitive .undefined | .primitive .void => true
  | _ => false

/-- Types that only say that a value may be missing. -/
def isNullish (t : Ty) : Bool := t.isNull || t.isUndefined

def isAny : Ty → Bool
  | .primitive .any | .primitive .unknown => true
  | _ => false

/-- The type of the values of a map. -/
def mapValue? : Ty → Option Ty
  | .map value => some value
  | _ => none

/-- The number that is the only value of a type.  A member of an enumeration counts only with an
integer. -/
def numericValue? : Ty → Option Numeral
  | .literal (.number n) => some n
  | .enumMember _ _ (some (.number (.exact n))) => some (.exact n)
  | _ => none

/-- The string that is the only value of a type. -/
def stringValue? : Ty → Option String
  | .literal (.string s) => some s
  | .enumMember _ _ (some (.text s)) => some s
  | _ => none

/-- A literal type as the type it belongs to. -/
def widenLiteral : Ty → Ty
  | .literal l => .primitive l.base
  | t => t

/-- The union of members that are no unions and of which no two are alike. -/
def ofAlternatives : List Ty → Ty
  | [] => .primitive .never
  | members =>
    if members.any isAny then any
    else
      match members with
      | [t] => t
      | _ => .union members

end Ty

/-- A property of an object type. -/
abbrev Property := Schema.Member Ty

end RouteScribe.Typing
