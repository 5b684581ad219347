import RouteScribe.Source.Scope
import RouteScribe.Table
import RouteScribe.Typing.Type

/-!
# Constants and enumerations

The values of constant expressions and of the members of an enumeration.  A member without a value
of its own follows the integer before it.
-/

namespace RouteScribe.Typing

open Source

/-- Numbers that cannot be read. -/
abbrev NumberResult (α : Type) := Except Numeral.NotANumber α

/-- The value of a negated number: a minus sign in front of a numeric literal. -/
def negatedNumber? (c : Cursor) : NumberResult (Option Numeral) := do
  match c.child? .operator, c.child? .argument with
  | some op, some arg =>
    if op.text == "-" && arg.kind == .number then return (← Numeral.read arg.text).map Numeral.neg
    else return none
  | _, _ => return none

/-- The value of a constant: a number, possibly negated, or a string, in any wrappers. -/
def constantValue? (c : Cursor) : NumberResult (Option Constant) := do
  let base := c.unwrap
  if base.kind == .number then return (← Numeral.read base.text).map .number
  match base.stringValue? with
  | some s => return some (.text s)
  | none =>
    if base.kind == .unaryExpression then return (← negatedNumber? base).map .number
    else return none

/-- The integer after a value. -/
def successor? : Option Constant → Option Int
  | some (.number (.exact n)) => some (n + 1)
  | _ => none

/-- The members of an enumeration from one member on; `next` is the value of a member without one
of its own. -/
def membersFrom (next : Option Int) (table : List (String × Option Constant)) :
    List Cursor → NumberResult (List (String × Option Constant))
  | [] => return table
  | m :: rest => do
    let implicit := next.map fun n => Constant.number (.exact n)
    let (name, value) ←
      if m.kind == .enumAssignment then do
        let value ← match m.child? .value with
          | some v => constantValue? v
          | none => pure none
        pure ((m.child? .name).bind Cursor.memberKey?, value)
      else pure (m.memberKey?, implicit)
    match name with
    | none => membersFrom next table rest
    | some name => membersFrom (successor? value) (Table.put name value table) rest

/-- The members of an enumeration with their values, in order. -/
def enumMembers (declaration : Cursor) : NumberResult (List (String × Option Constant)) :=
  match declaration.child? .body with
  | some body => membersFrom (some 0) [] body.named
  | none => return []

/-- The enumeration and the member that an expression of the form `Enum.Member` names. -/
def enumAccess? (c : Cursor) : Option (Cursor × String) := do
  let (name, object) ← c.unwrap.member?
  let target := object.unwrap
  if target.kind != .identifier then none
  let d ← target.declaration?
  if d.kind == .enumDeclaration then some (d, name) else none

/-- The value of an expression of the form `Enum.Member`. -/
def enumMemberValue? (c : Cursor) : NumberResult (Option Constant) := do
  match enumAccess? c with
  | some (d, name) => return ((← enumMembers d).lookup name).join
  | none => return none

end RouteScribe.Typing
