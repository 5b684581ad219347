import RouteScribe.Numeral.Basic

/-!
# Lexemes

Where the smallest pieces of a source text end: blanks and comments, words, punctuation, numbers,
strings and regular expressions.  Every function works on the characters of the text and a
position, and reads `NUL` past the end; a text that holds `NUL` itself is refused before.

The last section states when a statement may end without a semicolon.
-/

namespace RouteScribe.Source

open Numeral (isBinaryDigit isHexDigit isOctalDigit)

/-- The character at a position, `NUL` past the end. -/
def charAt (cs : Array Char) (i : Nat) : Char := cs.getD i '\x00'

/-- Characters that separate lexemes. -/
def isSpace (c : Char) : Bool :=
  let n := c.toNat
  (9 ≤ n && n ≤ 13) || n == 0x20 || n == 0x85 || n == 0xA0 || n == 0x1680
    || (0x2000 ≤ n && n ≤ 0x200B) || n == 0x2028 || n == 0x2029 || n == 0x202F || n == 0x205F
    || n == 0x2060 || n == 0x3000 || n == 0xFEFF

/-- Characters that end a line, a comment that runs to the end of its line among them. -/
def isLineEnd (c : Char) : Bool :=
  c == '\n' || c == '\r' || c.toNat == 0x2028 || c.toNat == 0x2029

/-- The position of the first character from `i` on that fails the test. -/
def spanEnd (cs : Array Char) (test : Char → Bool) : Nat → Nat → Nat
  | 0, i => i
  | n + 1, i => if i < cs.size && test (charAt cs i) then spanEnd cs test n (i + 1) else i

/-- The position after `*/`, if there is one from `i` on. -/
def commentEnd? (cs : Array Char) : Nat → Nat → Option Nat
  | 0, _ => none
  | n + 1, i =>
    if cs.size ≤ i then none
    else if charAt cs i == '*' && charAt cs (i + 1) == '/' then some (i + 2)
    else commentEnd? cs n (i + 1)

/-- The position after the comment that starts at `i`. -/
def skipComment? (cs : Array Char) (i : Nat) : Option Nat :=
  if charAt cs i != '/' then none
  else if charAt cs (i + 1) == '/' then some (spanEnd cs (fun c => !isLineEnd c) cs.size (i + 2))
  else if charAt cs (i + 1) == '*' then commentEnd? cs cs.size (i + 2)
  else none

/-- The position of the next lexeme: blanks and comments are passed over. -/
def skipTrivia (cs : Array Char) : Nat → Nat → Nat
  | 0, i => i
  | n + 1, i =>
    if i < cs.size && isSpace (charAt cs i) then skipTrivia cs n (i + 1)
    else
      match skipComment? cs i with
      | some j => skipTrivia cs n j
      | none => i

/-! ## Words and punctuation -/

/-- Characters that no word holds, beside blanks. -/
def isPunctuation (c : Char) : Bool :=
  ":;\x60\"'@#.,|^&<=>+-*/\\%?!~()[]\x7b\x7d".toList.contains c

/-- Characters that a word may hold after its first one. -/
def isWordPart (c : Char) : Bool := 0x20 ≤ c.toNat && !isSpace c && !isPunctuation c

/-- Characters that a word may start with. -/
def isWordStart (c : Char) : Bool := isWordPart c && !c.isDigit

/-- The position after `uXXXX` or `u` with hexadecimal digits in braces. -/
def unicodeEscapeEnd? (cs : Array Char) (i : Nat) : Option Nat :=
  if charAt cs i != 'u' then none
  else if charAt cs (i + 1) == '{' then
    let j := spanEnd cs isHexDigit cs.size (i + 2)
    if i + 2 < j && charAt cs j == '}' then some (j + 1) else none
  else if (List.range 4).all fun k => isHexDigit (charAt cs (i + 1 + k)) then some (i + 5)
  else none

/-- The position after the characters of a word from `i` on. -/
def wordPartsEnd (cs : Array Char) : Nat → Nat → Nat
  | 0, i => i
  | n + 1, i =>
    if isWordPart (charAt cs i) then wordPartsEnd cs n (i + 1)
    else if charAt cs i == '\\' then
      match unicodeEscapeEnd? cs (i + 1) with
      | some j => wordPartsEnd cs n j
      | none => i
    else i

/-- The position after the word that starts at `i`. -/
def wordEnd? (cs : Array Char) (i : Nat) : Option Nat :=
  let j := wordPartsEnd cs cs.size i
  if i < j && !(charAt cs i).isDigit then some j else none

/-- The given characters stand at a position. -/
def matchesAt (cs : Array Char) : List Char → Nat → Bool
  | [], _ => true
  | c :: rest, i => charAt cs i == c && matchesAt cs rest (i + 1)

/-- Punctuation of more than one character, the longest first. -/
def longPunctuation : List (List Char) :=
  [">>>=", "...", "===", "!==", "**=", "<<=", ">>=", ">>>", "&&=", "||=", "??=",
   "=>", "==", "!=", "<=", ">=", "&&", "||", "??", "?.", "++", "--", "+=", "-=", "*=", "/=", "%=",
   "&=", "|=", "^=", "<<", ">>", "**"].map String.toList

/-- The longest punctuation at a position. -/
def punctuationAt? (cs : Array Char) (i : Nat) : Option (List Char) :=
  match longPunctuation.find? (matchesAt cs · i) with
  | some p => some p
  | none =>
    let c := charAt cs i
    if isPunctuation c then some [c] else none

/-! ## Literals -/

/-- The position after digits of a base, single underscores between them. -/
def digitsEnd (cs : Array Char) (digit : Char → Bool) : Nat → Nat → Nat
  | 0, i => i
  | n + 1, i =>
    if digit (charAt cs i) then digitsEnd cs digit n (i + 1)
    else if charAt cs i == '_' && digit (charAt cs (i + 1)) then digitsEnd cs digit n (i + 2)
    else i

/-- The position after at least one digit. -/
def digits? (cs : Array Char) (digit : Char → Bool) (i : Nat) : Option Nat :=
  if digit (charAt cs i) then some (digitsEnd cs digit cs.size i) else none

/-- The position after an exponent, or the same position if there is none. -/
def exponentEnd (cs : Array Char) (i : Nat) : Nat :=
  if charAt cs i == 'e' || charAt cs i == 'E' then
    let j := if charAt cs (i + 1) == '+' || charAt cs (i + 1) == '-' then i + 2 else i + 1
    (digits? cs Char.isDigit j).getD i
  else i

/-- The position after an optional `n` of a large integer. -/
def bigSuffixEnd (cs : Array Char) (i : Nat) : Nat := if charAt cs i == 'n' then i + 1 else i

/-- The position after the number that starts at `i`. -/
def numberEnd? (cs : Array Char) (i : Nat) : Option Nat :=
  let c := charAt cs i
  let mark := (charAt cs (i + 1)).toLower
  let based (digit : Char → Bool) : Option Nat :=
    (digits? cs digit (i + 2)).map (bigSuffixEnd cs)
  let plain : Option Nat := do
    let j ← digits? cs Char.isDigit i
    let proper := c != '0' || j == i + 1 || charAt cs (i + 1) != '0' && charAt cs (i + 1) != '_'
    if proper && charAt cs j == '.' then
      return exponentEnd cs ((digits? cs Char.isDigit (j + 1)).getD (j + 1))
    else if proper && exponentEnd cs j != j then return exponentEnd cs j
    else return bigSuffixEnd cs j
  if c == '.' then (digits? cs Char.isDigit (i + 1)).map (exponentEnd cs)
  else if c == '0' && mark == 'x' then based isHexDigit <|> plain
  else if c == '0' && mark == 'b' then based isBinaryDigit <|> plain
  else if c == '0' && mark == 'o' then based isOctalDigit <|> plain
  else plain

/-- The position after the escape whose backslash stands before `i`. -/
def escapeEnd? (cs : Array Char) (i : Nat) : Option Nat :=
  let c := charAt cs i
  let octal (k : Nat) : Bool := isOctalDigit (charAt cs k)
  if cs.size ≤ i then none
  else if c == 'u' then unicodeEscapeEnd? cs i
  else if c == 'x' then
    if isHexDigit (charAt cs (i + 1)) && isHexDigit (charAt cs (i + 2)) then some (i + 3) else none
  else if octal i then
    some (if octal (i + 1) then if octal (i + 2) then i + 3 else i + 2 else i + 1)
  else if c == '\r' && charAt cs (i + 1) == '\n' then some (i + 2)
  else some (i + 1)

/-- The position after the closing quote of a string, from inside the string. -/
def stringEnd? (cs : Array Char) (quote : Char) : Nat → Nat → Option Nat
  | 0, _ => none
  | n + 1, i =>
    let c := charAt cs i
    if cs.size ≤ i || c == '\n' || c == '\r' then none
    else if c == quote then some (i + 1)
    else if c == '\\' then (escapeEnd? cs (i + 1)).bind (stringEnd? cs quote n)
    else stringEnd? cs quote n (i + 1)

/-- The position of the next `\x60` or `$` with a brace in a template, from inside the template. -/
def templateCharsEnd? (cs : Array Char) (escapes : Bool) : Nat → Nat → Option Nat
  | 0, _ => none
  | n + 1, i =>
    let c := charAt cs i
    if cs.size ≤ i then none
    else if c == '\x60' || c == '$' && charAt cs (i + 1) == '{' then some i
    else if c == '\\' then
      if escapes then (escapeEnd? cs (i + 1)).bind (templateCharsEnd? cs escapes n) else none
    else templateCharsEnd? cs escapes n (i + 1)

/-- The position after the closing slash of a regular expression, from inside.  In brackets a slash
stands for itself. -/
def regexEnd? (cs : Array Char) : (bracket : Bool) → Nat → Nat → Option Nat
  | _, 0, _ => none
  | bracket, n + 1, i =>
    let c := charAt cs i
    if cs.size ≤ i || c == '\n' then none
    else if c == '\\' then
      if charAt cs (i + 1) == '\n' || cs.size ≤ i + 1 then none else regexEnd? cs bracket n (i + 2)
    else if bracket then regexEnd? cs (c != ']') n (i + 1)
    else if c == '/' then some (i + 1)
    else regexEnd? cs (c == '[') n (i + 1)

/-! ## Ends of statements -/

/-- Whether a statement may end before the lexeme at `i`, which stands on a later line.  `binary`
says that an operator could go on here, `signature` that a function could get its body here. -/
def breakBefore (cs : Array Char) (binary signature : Bool) (i : Nat) : Bool :=
  let c := charAt cs i
  let next := charAt cs (i + 1)
  let letter (k : Nat) : Bool := (charAt cs k).isAlpha || 0x80 ≤ (charAt cs k).toNat
  if "\x60,.;*%><=?^|&/:".toList.contains c then false
  else if c == '{' then !signature
  else if c == '(' || c == '[' then !binary
  else if c == '+' || c == '-' then next == c
  else if c == '!' then next != '='
  else if c == 'i' && next == 'n' then
    if !letter (i + 2) then false
    else !(matchesAt cs "stanceof".toList (i + 2) && !letter (i + 10))
  else true

/-- Whether a statement may end at a position without a semicolon: at the end of the text, before a
closing brace, or at the end of a line if the next lexeme cannot go on with the statement. -/
def breakAt (cs : Array Char) (binary signature : Bool) : Nat → Nat → Bool
  | 0, _ => false
  | n + 1, i =>
    let c := charAt cs i
    if cs.size ≤ i then true
    else if c == '}' then
      if charAt cs (spanEnd cs isSpace cs.size (i + 1)) == ':' then binary else true
    else if c == '\n' then
      breakBefore cs binary signature (skipTrivia cs cs.size (i + 1))
    else if isSpace c then breakAt cs binary signature n (i + 1)
    else
      match skipComment? cs i with
      | some j => breakAt cs binary signature n j
      | none => false

end RouteScribe.Source
