import RouteScribe.Text.Pattern

/-!
# How YAML writes a text

A text is written plain when nothing else could be read there: it must not look like a truth value,
a number, a date or another special word, and hold no indicator where it would count.  Otherwise it
is put in single quotes, and in double quotes when it holds characters that need an escape.
-/

namespace RouteScribe.Document.Scalar

open Text (Pattern)
open Text.Pattern (anyOf chain char choice digit opt plus times word words)

/-! ## Texts that would be read as something else -/

def sign : Pattern := opt (anyOf "-+")

/-- Digits, with underscores after the first one. -/
def digits : Pattern := chain [digit, .star (.oneOf [('0', '9'), ('_', '_')])]

/-- Like `digits`, with no zero in front. -/
def positive : Pattern := chain [.oneOf [('1', '9')], .star (.oneOf [('0', '9'), ('_', '_')])]

/-- The minutes and seconds of a number in base sixty. -/
def sixties : Pattern := plus (chain [char ':', opt (.oneOf [('0', '5')]), digit])

def exponent : Pattern := opt (chain [anyOf "eE", anyOf "-+", plus digit])

def truthWords : Pattern :=
  words ["yes", "Yes", "YES", "no", "No", "NO", "true", "True", "TRUE", "false", "False", "FALSE",
    "on", "On", "ON", "off", "Off", "OFF"]

def floatNumber : Pattern :=
  let fraction : Pattern := .star (.oneOf [('0', '9'), ('_', '_')])
  choice
    [chain [sign, digits, char '.', fraction, exponent],
     chain [char '.', digits, exponent],
     chain [sign, digits, sixties, char '.', fraction],
     chain [sign, char '.', words ["inf", "Inf", "INF"]],
     chain [char '.', words ["nan", "NaN", "NAN"]]]

def intNumber : Pattern :=
  choice
    [chain [sign, word "0b", plus (.oneOf [('0', '1'), ('_', '_')])],
     chain [sign, char '0', plus (.oneOf [('0', '7'), ('_', '_')])],
     chain [sign, choice [char '0', positive]],
     chain [sign, word "0x", plus (.oneOf [('0', '9'), ('a', 'f'), ('A', 'F'), ('_', '_')])],
     chain [sign, positive, sixties]]

def specialWords : Pattern := words ["<<", "=", "~", "null", "Null", "NULL", ""]

def date : Pattern :=
  let hyphen := char '-'
  let oneOrTwo := chain [digit, opt digit]
  let blanks := Pattern.star (anyOf " \t")
  let zone := chain [anyOf "-+", oneOrTwo, opt (chain [char ':', times 2 digit])]
  choice
    [chain [times 4 digit, hyphen, times 2 digit, hyphen, times 2 digit],
     chain [times 4 digit, hyphen, oneOrTwo, hyphen, oneOrTwo,
       choice [anyOf "Tt", plus (anyOf " \t")],
       oneOrTwo, char ':', times 2 digit, char ':', times 2 digit,
       opt (chain [char '.', .star digit]),
       opt (chain [blanks, choice [char 'Z', zone]])]]

/-- Would the plain text be read as something other than a text? -/
def isSpecial (cs : List Char) : Bool :=
  [truthWords, floatNumber, intNumber, specialWords, date].any (·.fits cs)

/-! ## Characters that matter -/

/-- A line break. -/
def isBreak (c : Char) : Bool :=
  c == '\n' || c == '\u0085' || c == '\u2028' || c == '\u2029'

/-- A character that separates words for the rules on indicators. -/
def isGap (c : Char) : Bool :=
  c == '\x00' || c == ' ' || c == '\t' || c == '\r' || isBreak c

/-- A character that can be written as it is outside double quotes. -/
def isPrintable (c : Char) : Bool :=
  let n := c.toNat
  c == '\n' || (0x20 ≤ n && n ≤ 0x7e) || n == 0x85 || (0xa0 ≤ n && n ≤ 0xd7ff) ||
    (0xe000 ≤ n && n ≤ 0xfffd && n != 0xfeff) || (0x10000 ≤ n && n < 0x10ffff)

/-- Does some neighbouring pair of characters pass the test? -/
def hasPair (test : Char → Char → Bool) : List Char → Bool
  | a :: b :: rest => test a b || hasPair test (b :: rest)
  | _ => false

/-- Is the character after this place a gap, or the end of the text? -/
def gapNext : List Char → Bool
  | [] => true
  | c :: _ => isGap c

/-- An indicator inside a text: a colon before a gap, or a number sign after one. -/
def innerIndicator : Char → List Char → Bool
  | _, [] => false
  | before, c :: rest =>
    (c == ':' && gapNext rest) || (c == '#' && isGap before) || innerIndicator c rest

/-- Does the text hold an indicator where a plain text must not have one? -/
def hasIndicator (cs : List Char) : Bool :=
  let marker (c : Char) : Bool := ['-', '-', '-'].isPrefixOf cs || ['.', '.', '.'].isPrefixOf cs ||
    "#,[]\x7b\x7d&*!|>\x27\x22%@\x60".toList.contains c
  match cs with
  | [] => false
  | c :: rest =>
    marker c || ((c == '?' || c == ':' || c == '-') && gapNext rest) || innerIndicator c rest

/-! ## The choice of quotes -/

inductive Style where
  | plain | single | double
  deriving DecidableEq, Repr

/-- Does the text run over several lines? -/
def isMultiline (cs : List Char) : Bool := cs.any isBreak

/-- Single quotes keep a text whose characters are all printable and whose line breaks have no
space next to them. -/
def allowsSingle (cs : List Char) : Bool :=
  cs.all isPrintable && !hasPair (fun a b => isBreak a && b == ' ') cs &&
    !hasPair (fun a b => a == ' ' && isBreak b) cs

/-- A plain text moreover is on one line, has no space at its ends, and no indicator. -/
def allowsPlain (cs : List Char) : Bool :=
  cs = [] || (allowsSingle cs && !isMultiline cs && cs.head? != some ' ' &&
    cs.getLast? != some ' ' && !hasIndicator cs)

/-- The style of a text; as a key in front of a colon it must stay on one line. -/
def styleOf (asKey : Bool) (cs : List Char) : Style :=
  if !isSpecial cs && !(asKey && (cs = [] || isMultiline cs)) && allowsPlain cs then .plain
  else if allowsSingle cs && !(asKey && isMultiline cs) then .single
  else .double

/-- Can the text stand in front of a colon, without the mark of a long key? -/
def isSimpleKey (cs : List Char) : Bool :=
  cs.length + 5 < 128 && cs ≠ [] && !isMultiline cs

end RouteScribe.Document.Scalar
