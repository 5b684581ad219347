import RouteScribe.Numeral.Shortest
import RouteScribe.Text.Blank

/-!
# Numeric literals

The value of a numeric literal: an exact integer, or a floating point number that is not an integer.
`Numeral.read` accepts decimal numbers with fraction and exponent, the bases two, eight and sixteen,
underscores between digits and the suffix of big integers.

Between decimal text and integers there is a limit, `maxDigits`: a decimal integer of more digits is
read as a floating point number, and an integer of more digits has no decimal text.  A number with the
mark of a base can be read whatever its length is.
-/

namespace RouteScribe

/-- The value of a numeric literal.  A floating point value that is an integer is always held as
`exact`, so a `fractional` value has a fraction or is infinite. -/
inductive Numeral where
  | exact (value : Int)
  | fractional (value : Binary64)
  deriving DecidableEq, Repr, Inhabited

namespace Numeral

/-- The integer, when the value is one. -/
def int? : Numeral → Option Int
  | .exact n => some n
  | .fractional _ => none

/-- The integer that is left without the fraction; an infinite value has none. -/
def truncate? : Numeral → Option Int
  | .exact n => some n
  | .fractional x => x.truncate?

/-- The value with the opposite sign. -/
def neg : Numeral → Numeral
  | .exact n => .exact (-n)
  | .fractional x => .fractional x.neg

/-- The floating point value as a number: an integer when it is one. -/
def ofBinary64 (x : Binary64) : Numeral :=
  match x.toInt? with
  | some n => .exact n
  | none => .fractional x

/-! ## Decimal text -/

/-- The most digits that decimal text may have to be turned into an integer digit by digit, and that an
integer may have to be turned into decimal text.  Converting more of them is refused, because it takes
time that grows with the square of their number. -/
def maxDigits : Nat := 4300

/-- Whether an integer has more digits than decimal text may have. -/
def isLongInt (n : Int) : Bool := Binary64.tenTo maxDigits ≤ n.natAbs

/-- Whether a value is an integer with more digits than decimal text may have. -/
def isLong : Numeral → Bool
  | .exact n => isLongInt n
  | .fractional _ => false

/-- The decimal text of a number, whatever its length is. -/
def text : Numeral → String
  | .exact n => toString n
  | .fractional x => x.text

/-! ## Digits -/

/-- The value of a digit of a base up to sixteen. -/
def digitValue (c : Char) : Nat :=
  if '0' ≤ c && c ≤ '9' then c.toNat - '0'.toNat
  else if 'a' ≤ c && c ≤ 'f' then c.toNat - 'a'.toNat + 10
  else c.toNat - 'A'.toNat + 10

/-- Hexadecimal digits. -/
def isHexDigit (c : Char) : Bool :=
  c.isDigit || ('a' ≤ c && c ≤ 'f') || ('A' ≤ c && c ≤ 'F')

/-- Octal digits. -/
def isOctalDigit (c : Char) : Bool := '0' ≤ c && c ≤ '7'

/-- Binary digits. -/
def isBinaryDigit (c : Char) : Bool := c == '0' || c == '1'

/-- The natural number that a digit string denotes in the given base. -/
def ofDigits (base : Nat) (ds : List Char) : Nat :=
  ds.foldl (fun n c => n * base + digitValue c) 0

@[simp] theorem ofDigits_nil (base : Nat) : ofDigits base [] = 0 := rfl

theorem ofDigits_append (base : Nat) (ds : List Char) (d : Char) :
    ofDigits base (ds ++ [d]) = ofDigits base ds * base + digitValue d := by
  simp [ofDigits]

/-! ## The shape of a literal -/

/-- The written shape of a literal: digits of a base, or a decimal number.  The parts hold what
stands there, underscores included. -/
inductive Shape where
  | based (base : Nat) (digits : List Char)
  | decimal (whole : List Char) (fraction : Option (List Char)) (exponent : Option (List Char))
  deriving DecidableEq, Repr

/-- The shape of an unsigned literal with a base mark, if it is one. -/
def basedShape? : List Char → Option Shape
  | '0' :: mark :: ds =>
    let check (base : Nat) (test : Char → Bool) : Option Shape :=
      if ds ≠ [] && ds.all (fun c => test c || c == '_') then some (.based base ds) else none
    match mark with
    | 'x' | 'X' => check 16 isHexDigit
    | 'b' | 'B' => check 2 isBinaryDigit
    | 'o' | 'O' => check 8 isOctalDigit
    | _ => none
  | _ => none

/-- The exponent part after the mantissa: nothing, or a mark, an optional sign and digits. -/
def exponentPart? : List Char → Option (Option (List Char))
  | [] => some none
  | c :: rest =>
    if c == 'e' || c == 'E' then
      let ds := match rest with
        | '+' :: ds => ds
        | '-' :: ds => ds
        | ds => ds
      if ds ≠ [] && ds.all Char.isDigit then some (some rest) else none
    else none

/-- The shape of an unsigned decimal literal, if it is one.  A point must be followed by a digit
or an underscore. -/
def decimalShape? (cs : List Char) : Option Shape :=
  let inDigits (c : Char) : Bool := c.isDigit || c == '_'
  let whole := cs.takeWhile inDigits
  match cs.dropWhile inDigits with
  | '.' :: rest =>
    let fraction := rest.takeWhile inDigits
    if fraction = [] then none
    else (exponentPart? (rest.dropWhile inDigits)).map (.decimal whole (some fraction) ·)
  | rest =>
    if whole = [] then none else (exponentPart? rest).map (.decimal whole none ·)

/-- The shape of an unsigned literal. -/
def shape? (cs : List Char) : Option Shape :=
  match basedShape? cs with
  | some s => some s
  | none => decimalShape? cs

/-- The text without its underscores. -/
def withoutUnderscores (cs : List Char) : List Char :=
  cs.filter (· != '_')

/-- The value of an exponent part such as `-12`. -/
def exponentValue : List Char → Int
  | '-' :: ds => -(ofDigits 10 ds : Int)
  | '+' :: ds => ofDigits 10 ds
  | ds => ofDigits 10 ds

/-- The value of a literal of the given shape; `none` when no digit is left once the underscores
are gone. -/
def Shape.value? (negative : Bool) : Shape → Option Numeral
  | .based base digits =>
    match withoutUnderscores digits with
    | [] => none
    | ds =>
      let n : Int := ofDigits base ds
      some (.exact (if negative then -n else n))
  | .decimal whole fraction exponent =>
    let whole := withoutUnderscores whole
    let part := withoutUnderscores (fraction.getD [])
    let digits := whole ++ part
    if digits = [] then none
    else
      let leadingZero := whole.head? = some '0' && whole.any (· != '0')
      let short : Bool := whole.length ≤ maxDigits
      if fraction = none && exponent = none && !leadingZero && short then
        let n : Int := ofDigits 10 whole
        some (.exact (if negative then -n else n))
      else
        -- A decimal with a leading zero, too many digits, a fraction or an exponent goes through
        -- floating point.
        let scale : Int := (exponent.map exponentValue).getD 0 - part.length
        some (ofBinary64 (.ofDecimal negative (ofDigits 10 digits) digits.length scale))

/-- Text that has the shape of a number and still denotes none, because all its digits are
underscores. -/
structure NotANumber where
  text : String
  deriving DecidableEq, Repr

/-- The text of a literal without blanks around it and without the suffixes `n` of big integers. -/
def withoutSuffix (cs : List Char) : List Char :=
  Text.dropRightWhile (· == 'n') (Text.trim cs)

/-- What is read of a literal.  One line break that a suffix had protected from trimming is ignored as
well. -/
def bodyOf (cs : List Char) : List Char :=
  let trimmed := withoutSuffix cs
  if trimmed.getLast? = some '\n' then trimmed.dropLast else trimmed

/-- Reads what follows the sign of a literal; `text` is what a fault tells. -/
def readUnsigned (negative : Bool) (digits text : List Char) : Except NotANumber (Option Numeral) :=
  match shape? digits with
  | none => .ok none
  | some shape =>
    match shape.value? negative with
    | some value => .ok (some value)
    | none => .error ⟨String.ofList text⟩

/-- Reads a literal; text that has not the shape of a number has no value. -/
def read (s : String) : Except NotANumber (Option Numeral) :=
  let text := withoutUnderscores (withoutSuffix s.toList)
  match bodyOf s.toList with
  | '-' :: rest => readUnsigned true rest text
  | digits => readUnsigned false digits text

end Numeral

end RouteScribe
