import RouteScribe.Document.Value

/-!
# JSON text

Values are written as JSON in three layouts: on one line without blanks, on one line with a blank
after each separator, and over several lines with an indentation of two.  A fourth form, with the
fields of every object sorted and all characters outside ASCII escaped, serves as a key that
compares values up to the order of fields.
-/

namespace RouteScribe.Document

/-- Which characters are escaped beyond those that must be. -/
inductive Escaping where
  /-- Only quotes, backslashes and control characters. -/
  | least
  /-- Everything but the printable characters of ASCII. -/
  | ascii
  deriving DecidableEq, Repr

/-- The last hexadecimal digits of a number, as many as asked for, in lower case. -/
def hexDigits (width n : Nat) : List Char :=
  let digit (k : Nat) : Char := Nat.digitChar (n / Nat.pow 16 k % 16)
  (List.range width).reverse.map digit

/-- An escape of one unit of sixteen bits. -/
def unitEscape (n : Nat) : List Char := '\\' :: 'u' :: hexDigits 4 n

/-- A character inside a JSON string. -/
def jsonChar (e : Escaping) (c : Char) : List Char :=
  if c = '\x22' then ['\\', '\x22']
  else if c = '\\' then ['\\', '\\']
  else if c = '\n' then ['\\', 'n']
  else if c = '\r' then ['\\', 'r']
  else if c = '\t' then ['\\', 't']
  else if c = '\x08' then ['\\', 'b']
  else if c = '\x0c' then ['\\', 'f']
  else if c.toNat < 0x20 then unitEscape c.toNat
  else
    match e with
    | .least => [c]
    | .ascii =>
      if c.toNat < 0x7f then [c]
      else if c.toNat < 0x10000 then unitEscape c.toNat
      else
        -- A character above the first plane is written as a pair of units.
        let n := c.toNat - 0x10000
        unitEscape (0xd800 + n / 0x400) ++ unitEscape (0xdc00 + n % 0x400)

/-- A JSON string. -/
def jsonString (e : Escaping) (s : String) : String :=
  String.ofList ('\x22' :: s.toList.flatMap (jsonChar e) ++ ['\x22'])

/-- How the items of lists and objects are set. -/
inductive Spacing where
  /-- On one line, no blanks. -/
  | dense
  /-- On one line, a blank after each comma and colon. -/
  | loose
  /-- One item per line, indented by two per level. -/
  | indented
  deriving DecidableEq, Repr

/-- A new line at the given level. -/
def newLine (level : Nat) : String :=
  String.ofList ('\n' :: List.replicate (2 * level) ' ')

/-- What stands between brackets: the items with separators, set at the given level. -/
def bracketed (sp : Spacing) (level : Nat) (opening closing : String) (items : List String) :
    String :=
  if items.isEmpty then opening ++ closing
  else
    match sp with
    | .dense => opening ++ ",".intercalate items ++ closing
    | .loose => opening ++ ", ".intercalate items ++ closing
    | .indented =>
      opening ++ newLine (level + 1) ++ ("," ++ newLine (level + 1)).intercalate items ++
        newLine level ++ closing

/-- A field of an object, from its name and the text of its value. -/
def jsonField (e : Escaping) (sp : Spacing) (name value : String) : String :=
  jsonString e name ++ (if sp = .dense then ":" else ": ") ++ value

mutual

/-- The JSON text of a value at the given level. -/
def Value.json (e : Escaping) (sp : Spacing) (level : Nat) : Value → String
  | .text s => jsonString e s
  | .flag b => if b then "true" else "false"
  | .list items => bracketed sp level "[" "]" (jsonItems e sp (level + 1) items)
  | .object fields => bracketed sp level "\x7b" "\x7d" (jsonFields e sp (level + 1) fields)
  | .shared v => v.json e sp level

def jsonItems (e : Escaping) (sp : Spacing) (level : Nat) : List Value → List String
  | [] => []
  | v :: rest => v.json e sp level :: jsonItems e sp level rest

def jsonFields (e : Escaping) (sp : Spacing) (level : Nat) : List (String × Value) → List String
  | [] => []
  | (n, v) :: rest => jsonField e sp n (v.json e sp level) :: jsonFields e sp level rest

end

mutual

/-- The value with the fields of every object in the order of their names, by code points. -/
def Value.sorted : Value → Value
  | .text s => .text s
  | .flag b => .flag b
  | .list items => .list (sortedItems items)
  | .object fields =>
    .object ((sortedFields fields).mergeSort fun a b => a.1 < b.1 || a.1 == b.1)
  | .shared v => .shared v.sorted

def sortedItems : List Value → List Value
  | [] => []
  | v :: rest => v.sorted :: sortedItems rest

def sortedFields : List (String × Value) → List (String × Value)
  | [] => []
  | (n, v) :: rest => (n, v.sorted) :: sortedFields rest

end

namespace Value

/-- One line without blanks. -/
def dense (v : Value) : String := v.json .least .dense 0

/-- One line with a blank after each separator. -/
def loose (v : Value) : String := v.json .least .loose 0

/-- Several lines, closed by a line feed. -/
def pretty (v : Value) : String := v.json .least .indented 0 ++ "\n"

/-- A text that two values share exactly when they are equal up to the order of fields. -/
def orderlessKey (v : Value) : String := v.sorted.json .ascii .loose 0

end Value

end RouteScribe.Document
