import RouteScribe.Source.ExpressionGrammar

/-!
# The grammar of markup

Elements written between angle brackets, as expressions of sources that may hold markup.  The text
of an element is read character by character: blanks and comments have no meaning there.
-/

namespace RouteScribe.Source.Grammar

open Read

variable (self : Rules)

/-- A name in markup: words with hyphens between them. -/
def markupWord (kind : Kind) : Read Node := do
  toLexeme
  let i ← get
  let cs := (← read).chars
  if !isWordStart (charAt cs i) then failure
  let j := spanEnd cs (fun c => isWordPart c || c == '-') cs.size i
  set j
  leaf kind i j

/-- A name in markup, perhaps in a namespace. -/
def markupName (kind : Kind) : Read Node := do
  let first ← markupWord kind
  match ← optional (symbol ":") with
  | some c => make .markupNamespaceName [first, c, ← markupWord kind]
  | none => return first

/-- The name of an element: a word or a path of members. -/
def markupElementName : Read Node := do
  let first ← markupName .identifier
  let more ← many (do
    let dot ← operator "."
    return (dot, ← wordOf .propertyName))
  more.foldlM (fun base (dot, part) =>
    make .memberExpression [base.withRole .object, dot, part.withRole .property]) first

/-- An expression between braces. -/
def markupExpression : Read Node := do
  let opening ← symbol openBrace
  let x ← enclosed (maybe (spread self <|> self .expressions))
  make .markupExpression ([opening] ++ x ++ [← symbol closeBrace])

/-- A string between quotes, in which nothing is escaped. -/
def markupString : Read Node := do
  let quote ← peek
  if quote != '\x22' && quote != '\x27' then failure
  toLexeme
  let i ← get
  let cs := (← read).chars
  let j := spanEnd cs (· != quote) cs.size (i + 1)
  if charAt cs j != quote then failure
  set (j + 1)
  leaf .string i (j + 1)

/-- One attribute of an element. -/
def markupAttribute : Read Node := do
  if (← peek) == '{' then markupExpression self
  else
    let name ← markupName .propertyName
    match ← optional (symbol "=") with
    | none => make .markupAttribute [name]
    | some eq =>
      let c ← peek
      let value ← if c == '{' then markupExpression self
        else if c == '<' then self .markup
        else markupString
      make .markupAttribute [name, eq, value]

/-- The position after a character reference. -/
def referenceEnd? (cs : Array Char) (i : Nat) : Option Nat :=
  let finish (low high start : Nat) (test : Char → Bool) : Option Nat :=
    let j := spanEnd cs test cs.size start
    if start + low ≤ j && j ≤ start + high && charAt cs j == ';' then some (j + 1) else none
  if charAt cs (i + 1) == '#' then
    if (charAt cs (i + 2)).toLower == 'x' then finish 1 6 (i + 3) Numeral.isHexDigit
    else finish 1 5 (i + 2) Char.isDigit
  else finish 1 30 (i + 1) Char.isAlpha

/-- One piece of what stands inside an element. -/
def markupChild : Read Node := do
  let i ← get
  let cs := (← read).chars
  let c := charAt cs i
  if cs.size ≤ i then failure
  else if c == '<' then
    if charAt cs (skipTrivia cs cs.size (i + 1)) == '/' then failure else self .markup
  else if c == '{' then markupExpression self
  else if c == '&' then
    match referenceEnd? cs i with
    | some j =>
      set j
      leaf .markupReference i j
    | none => failure
  else
    let j := spanEnd cs (fun d => !"<>&\x7b\x7d".toList.contains d) cs.size i
    if i < j then
      set j
      leaf .markupText i j
    else failure

/-- An element with its attributes and what stands inside. -/
def markup : Read Node := do
  let opening ← symbol "<"
  let head ← if (← peek) == '>' then pure [] else do
    let name ← markupElementName
    let types ← maybe (self .typeArguments)
    let attributes ← many (markupAttribute self)
    pure ([name.withRole .name] ++ types ++ attributes)
  let selfClosing ← if head.isEmpty then pure none else optional (symbol "/>")
  match selfClosing with
  | some t => make .markupSelfClosing ([opening] ++ head ++ [t])
  | none =>
    let t ← symbol ">"
    let front ← make .markupOpening ([opening] ++ head ++ [t])
    let children ← many (markupChild self)
    let closing ← symbol "</"
    let name ← maybe (as .name markupElementName)
    let back ← make .markupClosing ([closing] ++ name ++ [← symbol ">"])
    make .markupElement ([front] ++ children ++ [back])

end RouteScribe.Source.Grammar
