import RouteScribe.Source.Lexeme
import RouteScribe.Source.Node

/-!
# Readers

A reader takes nodes off a source text.  It knows the text and a few facts about where it reads,
moves a position, and either gives a value or refuses; a reader that refused has not moved.

Grammar rules refer to each other through `Rule`: the body of a rule is an ordinary function of the
reader for the rules below it, and the knot is tied by recursion on a bound for the nesting.
-/

namespace RouteScribe.Source

/-- Where a reader reads. -/
structure Setting where
  /-- The characters of the text. -/
  chars : Array Char
  /-- Whether markup elements are expressions; type assertions in angle brackets are then none. -/
  markup : Bool
  /-- Whether the statement could end after what is read. -/
  endable : Bool := false
  /-- Whether an arrow function may state its result type. -/
  resultTypes : Bool := true

/-- Readers: functions of the setting and the position. -/
abbrev Read (α : Type) := ReaderT Setting (StateT Nat Option) α

/-- The rules of the grammar that other rules refer to. -/
inductive Rule
  | statement | block | expression | expressions | type | primaryType | typeArguments
  | typeParameters | formalParameters | pattern | propertyName | object | array | arguments
  | classBody | decorator | operand | markup
  deriving DecidableEq, Repr

/-- A reader for every rule. -/
abbrev Rules := Rule → Read Node

namespace Read

variable {α β : Type}

/-! ## Looking ahead -/

/-- Moves to the next lexeme. -/
def toLexeme : Read Unit := do
  let cs := (← read).chars
  modify (skipTrivia cs (cs.size + 1))

/-- The character of the next lexeme. -/
def peek : Read Char := do
  let cs := (← read).chars
  return charAt cs (skipTrivia cs (cs.size + 1) (← get))

/-- The result of a reader, without moving. -/
def ahead (p : Read α) : Read (Option α) := do
  let i ← get
  let r ← optional p
  set i
  return r

/-- Whether a reader would succeed. -/
def sees (p : Read α) : Read Bool := return (← ahead p).isSome

/-- Reads inside brackets: a statement cannot end here. -/
def enclosed (p : Read α) : Read α :=
  withReader (fun s => { s with endable := false, resultTypes := true }) p

/-- Reads what a statement could end with. -/
def endable (p : Read α) : Read α :=
  withReader (fun s => { s with endable := true, resultTypes := true }) p

/-- Whether a statement may end here without a semicolon. -/
def atBreak (binary signature : Bool) : Read Bool := do
  let cs := (← read).chars
  return breakAt cs binary signature (cs.size + 1) (← get)

/-- Whether an expression may go on with the next lexeme. -/
def goesOn : Read Bool := do
  if (← read).endable then return !(← atBreak true false) else return true

/-- Whether a type may go on with the next lexeme. -/
def typeGoesOn : Read Bool := do
  if (← read).endable then return !(← atBreak false false) else return true

/-! ## Nodes -/

/-- The text between two positions. -/
def slice (start stop : Nat) : Read String := do
  return String.ofList ((← read).chars.extract start stop).toList

/-- A node without parts. -/
def leaf (kind : Kind) (start stop : Nat) : Read Node := do
  return ⟨kind, .plain, start, stop, ← slice start stop, []⟩

/-- A node with the given parts; it covers the text from its first to its last part. -/
def make (kind : Kind) (children : List Node) : Read Node := do
  let here ← get
  let start := (children.head?.map Node.start).getD here
  let stop := (children.getLast?.map Node.stop).getD here
  return ⟨kind, .plain, start, stop, ← slice start stop, children⟩

/-- A node in a role. -/
def as (role : Role) (p : Read Node) : Read Node := return (← p).withRole role

/-! ## Lexemes -/

/-- The brace that opens blocks, objects and types of objects. -/
def openBrace : String := "\x7b"

/-- The brace that closes them. -/
def closeBrace : String := "\x7d"

/-- The given characters, whatever follows them. -/
def symbol (s : String) : Read Node := do
  toLexeme
  let i ← get
  let cs := (← read).chars
  if matchesAt cs s.toList i then
    set (i + s.length)
    leaf .token i (i + s.length)
  else failure

/-- The longest punctuation at the next lexeme, if it is the given one. -/
def operator (s : String) : Read Node := do
  toLexeme
  let i ← get
  if punctuationAt? (← read).chars i = some s.toList then
    set (i + s.length)
    leaf .token i (i + s.length)
  else failure

/-- A word in a form of its own. -/
def wordOf (kind : Kind) : Read Node := do
  toLexeme
  let i ← get
  match wordEnd? (← read).chars i with
  | some j =>
    set j
    leaf kind i j
  | none => failure

/-- A keyword. -/
def word (s : String) : Read Node := do
  let n ← wordOf .token
  if n.text == s then return n else failure

/-- One of some keywords. -/
def oneWord (ss : List String) : Read Node := do
  let n ← wordOf .token
  if ss.contains n.text then return n else failure

/-- The word at the next lexeme, empty if there is none. -/
def peekWord : Read String := do
  match ← ahead (wordOf .token) with
  | some n => return n.text
  | none => return ""

/-! ## Repetition -/

/-- As many as there are, at most a number of them. -/
def upTo (p : Read α) : Nat → Read (List α)
  | 0 => pure []
  | n + 1 => do
    match ← optional p with
    | some x => return x :: (← upTo p n)
    | none => return []

/-- As many as there are. -/
def many (p : Read α) : Read (List α) := do
  upTo p ((← read).chars.size + 1)

/-- Present or absent. -/
def maybe (p : Read α) : Read (List α) := return (← optional p).toList

/-- At least one, with commas between them; the commas are parts too. -/
def commaSep1 (p : Read Node) : Read (List Node) := do
  let x ← p
  let more ← many (do return [← symbol ",", ← p])
  return x :: more.flatten

/-- Any number with commas between them, where any of them may be missing. -/
def commaSepHoles (p : Read Node) : Read (List Node) := do
  let x ← maybe p
  let more ← many (do
    let c ← symbol ","
    return c :: (← maybe p))
  return x ++ more.flatten

/-- The end of a statement: a semicolon, or a place where it may be left out. -/
def semicolon (binary : Bool) : Read (List Node) := do
  match ← optional (symbol ";") with
  | some t => return [t]
  | none => if ← atBreak binary false then return [] else failure

end Read

end RouteScribe.Source
