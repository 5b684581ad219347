import RouteScribe.Schema.Synthesis
import RouteScribe.Text.Blank
import RouteScribe.Text.WordChar

/-!
# Types read from their text

A schema can be made from the text of a type alone, with less detail: primitives, the two spellings
of lists, records with string keys, and objects with one level of members.  The text is cut at
every separator, whatever it stands in, so nested members are not told apart.
-/

namespace RouteScribe.Schema.TypeText

open Text (isBlank trim trimLeft)

/-- The text after a fixed start, if it starts so. -/
def after? (start : String) (cs : List Char) : Option (List Char) :=
  let s := start.toList
  if s.isPrefixOf cs then some (cs.drop s.length) else none

/-- The text before a fixed end, if it ends so. -/
def before? (ending : String) (cs : List Char) : Option (List Char) :=
  let e := ending.toList
  if e.isSuffixOf cs then some (cs.take (cs.length - e.length)) else none

/-- The element type of a list, written with brackets at the end or with `Array`. -/
def element? (cs : List Char) : Option (List Char) :=
  let nonBlank (inner : List Char) : Option (List Char) :=
    let inner := trim inner
    if inner = [] then none else some inner
  match (before? "[]" cs).bind nonBlank with
  | some inner => some inner
  | none => ((after? "Array<" cs).bind (before? ">")).bind nonBlank

/-- The value type of a record with string keys. -/
def recordValue? (cs : List Char) : Option (List Char) := do
  let rest ← after? "Record<" cs
  let rest ← after? "string" (trimLeft rest)
  let rest ← after? "," (trimLeft rest)
  let value ← before? ">" rest
  if value = [] then none else some (trim value)

/-- The parts between separators.  Blanks after a separator belong to it, and empty parts do not
count; `part` holds the part that is being read, in reverse. -/
def parts (part : List Char) : List Char → List (List Char)
  | [] => if part = [] then [] else [part.reverse]
  | c :: cs =>
    if c = ';' || c = ',' then
      let rest := partsAfter cs
      if part = [] then rest else part.reverse :: rest
    else parts (c :: part) cs
where
  /-- The parts after a separator, whose blanks are still to be skipped. -/
  partsAfter : List Char → List (List Char)
    | [] => []
    | c :: cs =>
      if isBlank c then partsAfter cs
      else if c = ';' || c = ',' then partsAfter cs
      else parts [c] cs

/-- A member such as `name?: type`; parts of another shape are no members. -/
def member? (cs : List Char) : Option (Member (List Char)) :=
  let name := cs.takeWhile Text.isWordChar
  let rest := cs.dropWhile Text.isWordChar
  let (optional, rest) := match rest with
    | '?' :: rest => (true, rest)
    | _ => (false, rest)
  match rest with
  | ':' :: type =>
    if name = [] ∨ type = [] then none else some ⟨String.ofList name, optional, trim type⟩
  | _ => none

/-- The members of an object type in braces. -/
def members? (cs : List Char) : Option (List (Member (List Char))) :=
  ((after? "\x7b" cs).bind (before? "\x7d")).map fun inner =>
    (parts [] (trim inner)).filterMap fun p => member? (trim p)

/-- The view of a type by its trimmed text. -/
def view (cs : List Char) : View (List Char) Unit :=
  let s := String.ofList cs
  if s = "string" ∨ s = "String" then .primitive .string
  else if s = "number" ∨ s = "Number" then .primitive .number
  else if s = "boolean" ∨ s = "Boolean" then .primitive .boolean
  else if s = "null" then .primitive .null
  else if s = "undefined" ∨ s = "void" then .undefined
  else
    match element? cs with
    | some inner => .array inner
    | none =>
      match recordValue? cs with
      | some value => .map value
      | none =>
        match members? cs with
        | some ms => .object none ms
        | none => .other s

end TypeText

/-- The schema of a type that is given by its text; blank text has none.  Each level of description
reads a shorter text, so one level per character is enough. -/
def ofTypeText? (text : String) : Option Schema :=
  let cs := Text.trim text.toList
  if cs = [] then none
  else some <| Id.run <|
    synthesize (fun t => pure (TypeText.view t)) (fun _ => false) (pure (.unparsed none false))
      (cs.length + 1) [] cs

end RouteScribe.Schema
