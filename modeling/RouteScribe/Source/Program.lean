import RouteScribe.Source.MarkupGrammar
import RouteScribe.Source.StatementGrammar

/-!
# Programs

The rules of the grammar tied together, and the tree of a whole source text.
-/

namespace RouteScribe.Source

open Read Grammar

/-- The body of a rule. -/
def ruleBody (self : Rules) : Rules
  | .statement => statement self
  | .block => block self
  | .expression => expression self
  | .expressions => expressions self
  | .type => type self
  | .primaryType => primaryType self
  | .typeArguments => typeArguments self
  | .typeParameters => typeParameters self
  | .formalParameters => formalParameters self
  | .pattern => pattern self
  | .propertyName => propertyName self
  | .object => object self
  | .array => array self
  | .arguments => arguments self
  | .classBody => classBody self
  | .decorator => decorator self
  | .operand => operand self
  | .markup => markup self

/-- The reader of a rule, for rules that nest at most to a depth. -/
def rules : Nat → Rules
  | 0, _ => failure
  | n + 1, r => ruleBody (rules n) r

/-- The statements of a text, to its end. -/
def program (self : Rules) : Read Node := do
  let cs := (← read).chars
  if matchesAt cs ['#', '!'] 0 then
    set (spanEnd cs (fun c => !isLineEnd c) cs.size 0)
  let statements ← many (self .statement)
  toLexeme
  if (← get) < cs.size then failure
  make .program statements

/-- The kind of source text. -/
inductive Dialect
  /-- Types only. -/
  | plain
  /-- Types and markup. -/
  | markup
  deriving DecidableEq, Repr

/-- The tree of a source text, or nothing if the text is not well formed.  Every rule that refers to
another without reading a character does so through a chain that is shorter than the bound on the
nesting for one character. -/
def parse (dialect : Dialect) (text : String) : Option Node :=
  let chars := text.toList.toArray
  if chars.contains '\x00' then none
  else
    let setting : Setting := { chars, markup := dialect == .markup }
    (program (rules (16 * (chars.size + 1))) setting 0).map (·.1)

end RouteScribe.Source
