import RouteScribe.Document.Json
import RouteScribe.Document.Scalar

/-!
# YAML text

Values are written in block style with an indentation of two.  A list under a key starts at the
column of the key, and a list or object inside a list item starts on the line of its dash.  Long
texts are folded at spaces once a line has passed column eighty.  A shared value that occurs again
is written once under an anchor and referred to afterwards.
-/

namespace RouteScribe.Document

/-- The state of writing: the text so far, the column, and what the line ends with. -/
structure Pen where
  out : String
  column : Nat
  /-- Whether the last thing written was white space. -/
  afterGap : Bool
  /-- Whether the line holds nothing but indentation and item marks. -/
  fresh : Bool
  /-- The shared values that have been written. -/
  written : List Value

namespace Pen

/-- The column after which texts are folded. -/
def foldColumn : Nat := 80

def start : Pen := ⟨"", 0, true, true, []⟩

def write (p : Pen) (s : String) : Pen :=
  { p with out := p.out ++ s, column := p.column + s.length }

def writeChars (p : Pen) (cs : List Char) : Pen := p.write (String.ofList cs)

def lineBreak (p : Pen) (c : Char) : Pen :=
  { p with out := p.out.push c, column := 0, afterGap := true, fresh := true }

/-- Goes to the given column of a line that holds nothing yet, starting a new line if needed. -/
def indentTo (p : Pen) (indent : Nat) : Pen :=
  let p := if !p.fresh || indent < p.column || (p.column == indent && !p.afterGap)
    then p.lineBreak '\n' else p
  if p.column < indent then
    { p.writeChars (List.replicate (indent - p.column) ' ') with afterGap := true }
  else p

/-- Writes a mark, after a space unless there is a gap already or none is needed. -/
def mark (p : Pen) (s : String) (needsGap gapAfter keepsFresh : Bool) : Pen :=
  let p' := p.write (if p.afterGap || !needsGap then s else " " ++ s)
  { p' with afterGap := gapAfter, fresh := p.fresh && keepsFresh }

/-- The pen after something that is neither a gap nor indentation. -/
def solid (p : Pen) : Pen := { p with afterGap := false, fresh := false }

end Pen

/-! ## Texts -/

/-- A stretch of a text: spaces, line breaks, or other characters. -/
inductive Stretch where
  | spaces (n : Nat)
  | breaks (cs : List Char)
  | other (cs : List Char)
  deriving Repr

/-- The longest stretches of a text. -/
def stretches : List Char → List Stretch
  | [] => []
  | c :: cs =>
    if c = ' ' then
      match stretches cs with
      | .spaces n :: rest => .spaces (n + 1) :: rest
      | rest => .spaces 1 :: rest
    else if Scalar.isBreak c then
      match stretches cs with
      | .breaks bs :: rest => .breaks (c :: bs) :: rest
      | rest => .breaks [c] :: rest
    else
      match stretches cs with
      | .other os :: rest => .other (c :: os) :: rest
      | rest => .other [c] :: rest

/-- How a text is folded: the column that new lines start at, unless it must stay on its line. -/
structure Folding where
  indent : Nat
  allowed : Bool

/-- A plain text: a single space past the fold column becomes a new line. -/
def writePlain (f : Folding) (p : Pen) (cs : List Char) : Pen :=
  let p := (if p.afterGap then p else p.write " ").solid
  (stretches cs).foldl (fun p s =>
    match s with
    | .spaces n =>
      if n == 1 && Pen.foldColumn < p.column && f.allowed then (p.indentTo f.indent).solid
      else p.writeChars (List.replicate n ' ')
    | .breaks bs => p.writeChars bs
    | .other os => p.writeChars os) p

/-- The line breaks of a quoted text: a line feed is written twice, since one alone is a space. -/
def writeBreaks (f : Folding) (p : Pen) (bs : List Char) : Pen :=
  let p := if bs.head? = some '\n' then p.lineBreak '\n' else p
  (bs.foldl Pen.lineBreak p).indentTo f.indent

/-- The inside of single quotes; `first` says that nothing of the text has been written yet. -/
def writeSingleBody (f : Folding) : Pen → Bool → List Stretch → Pen
  | p, _, [] => p
  | p, first, s :: rest =>
    let p := match s with
      | .spaces n =>
        if n == 1 && Pen.foldColumn < p.column && f.allowed && !first && !rest.isEmpty then
          p.indentTo f.indent
        else p.writeChars (List.replicate n ' ')
      | .breaks bs => writeBreaks f p bs
      | .other os => p.writeChars (os.flatMap fun c => if c = '\x27' then [c, c] else [c])
    writeSingleBody f p false rest

def writeSingle (f : Folding) (p : Pen) (cs : List Char) : Pen :=
  (writeSingleBody f (p.mark "\x27" true false false) true (stretches cs)).mark "\x27" false false false

/-- Upper-case hexadecimal digits. -/
def upperHex (width n : Nat) : List Char := (hexDigits width n).map Char.toUpper

/-- The escape of a character inside double quotes, if it needs one. -/
def doubleEscape? (c : Char) : Option (List Char) :=
  let n := c.toNat
  let short (d : Char) : Option (List Char) := some ['\\', d]
  if n == 0x00 then short '0'
  else if n == 0x07 then short 'a'
  else if n == 0x08 then short 'b'
  else if n == 0x09 then short 't'
  else if n == 0x0a then short 'n'
  else if n == 0x0b then short 'v'
  else if n == 0x0c then short 'f'
  else if n == 0x0d then short 'r'
  else if n == 0x1b then short 'e'
  else if n == 0x22 then short '\x22'
  else if n == 0x5c then short '\\'
  else if n == 0x85 then short 'N'
  else if n == 0x2028 then short 'L'
  else if n == 0x2029 then short 'P'
  else if (0x20 ≤ n && n ≤ 0x7e) || (0xa0 ≤ n && n ≤ 0xd7ff) ||
      (0xe000 ≤ n && n ≤ 0xfffd && n != 0xfeff) then none
  else if n ≤ 0xff then some ('\\' :: 'x' :: upperHex 2 n)
  else if n ≤ 0xffff then some ('\\' :: 'u' :: upperHex 4 n)
  else some ('\\' :: 'U' :: upperHex 8 n)

/-- Ends the line with a backslash and goes on at the next one; a space that comes next is
protected by a backslash of its own. -/
def foldDouble (f : Folding) (p : Pen) (next : Option Char) : Pen :=
  let p := ((p.write "\\").indentTo f.indent).solid
  if next = some ' ' then p.write "\\" else p

/-- The inside of double quotes.  `pending` holds, in reverse, characters that are not written yet,
and `first` says that the text starts here. -/
def writeDoubleBody (f : Folding) : Pen → Bool → List Char → List Char → Pen
  | p, _, pending, [] => p.writeChars pending.reverse
  | p, first, pending, c :: rest =>
    -- The first and the last character are never folded at.
    let mayFold := f.allowed && !first && !rest.isEmpty
    match doubleEscape? c with
    | some escape =>
      let p := (p.writeChars pending.reverse).writeChars escape
      let p := if mayFold && Pen.foldColumn + 1 < p.column then foldDouble f p rest.head? else p
      writeDoubleBody f p false [] rest
    | none =>
      if mayFold && (c == ' ' || pending.isEmpty) &&
          Pen.foldColumn < p.column + pending.length then
        writeDoubleBody f (foldDouble f (p.writeChars pending.reverse) (some c)) false [c] rest
      else writeDoubleBody f p false (c :: pending) rest

def writeDouble (f : Folding) (p : Pen) (cs : List Char) : Pen :=
  (writeDoubleBody f (p.mark "\x22" true false false) true [] cs).mark "\x22" false false false

/-- A text, as a key or as a value, inside something that is indented by `outer`. -/
def writeText (outer : Nat) (asKey : Bool) (p : Pen) (s : String) : Pen :=
  let cs := s.toList
  let f : Folding := ⟨outer + 2, !asKey⟩
  match Scalar.styleOf asKey cs with
  | .plain => writePlain f p cs
  | .single => writeSingle f p cs
  | .double => writeDouble f p cs

/-! ## Lists and objects -/

/-- The shared values that occur more than once, in the order of their second occurrence. -/
def repeatedValues (vs : List Value) : List Value :=
  let step (acc : List Value × List Value) (v : Value) : List Value × List Value :=
    let (seen, again) := acc
    if !seen.any v.same then (seen ++ [v], again)
    else if again.any v.same then acc
    else (seen, again ++ [v])
  (vs.foldl step ([], [])).2

/-- The name of the anchor of a shared value, if it has one. -/
def anchorName? (anchors : List Value) (v : Value) : Option String :=
  (anchors.findIdx? v.same).map fun i =>
    let n := toString (i + 1)
    "id" ++ String.ofList (List.replicate (3 - n.length) '0') ++ n

mutual

/-- A value inside something that is indented by `outer`; nothing is outside of a document.
`inObject` says that the value belongs to a key. -/
def Value.yaml (anchors : List Value) (outer : Option Nat) (inObject : Bool) (p : Pen) :
    Value → Pen
  | .text s => writeText (outer.getD 0) false p s
  | .flag b => writePlain ⟨0, false⟩ p (if b then "true" else "false").toList
  | .list [] => (p.mark "[" true true false).mark "]" false false false
  | .object [] => (p.mark "\x7b" true true false).mark "\x7d" false false false
  | .list (v :: rest) =>
    let indent := match outer with
      | none => 0
      | some n => if inObject && !p.fresh then n else n + 2
    yamlItems anchors indent p (v :: rest)
  | .object (e :: rest) =>
    let indent := match outer with
      | none => 0
      | some n => n + 2
    yamlFields anchors indent p (e :: rest)
  | .shared v =>
    match anchorName? anchors v with
    | none => v.yaml anchors outer inObject p
    | some name =>
      if p.written.any v.same then p.mark ("*" ++ name) true false false
      else
        let p := p.mark ("&" ++ name) true false false
        v.yaml anchors outer inObject { p with written := v :: p.written }

def yamlItems (anchors : List Value) (indent : Nat) (p : Pen) : List Value → Pen
  | [] => p
  | v :: rest =>
    let p := (p.indentTo indent).mark "-" true false true
    yamlItems anchors indent (v.yaml anchors (some indent) false p) rest

def yamlFields (anchors : List Value) (indent : Nat) (p : Pen) : List (String × Value) → Pen
  | [] => p
  | (name, v) :: rest =>
    let p := p.indentTo indent
    let p :=
      if Scalar.isSimpleKey name.toList then (writeText indent true p name).mark ":" false false false
      else
        -- A long or empty key gets a line and a mark of its own.
        let p := writeText indent false (p.mark "?" true false true) name
        (p.indentTo indent).mark ":" true false true
    yamlFields anchors indent (v.yaml anchors (some indent) true p) rest

end

/-- The YAML text of a document. -/
def Value.yamlText (v : Value) : String :=
  let p := v.yaml (repeatedValues v.sharedValues) none false Pen.start
  (p.indentTo 0).out

end RouteScribe.Document
