import RouteScribe.Numeral.Binary64

/-!
# The shortest decimal of a floating point number

A floating point number is written with the fewest decimal digits that still read back as that
number; of the decimals of that length the nearest one is taken.  The search works on the interval
of reals that round to the number: for one, two, … seventeen digits it tries the two neighbours of
the value on that decimal grid, in exact arithmetic.
-/

namespace RouteScribe.Binary64

/-- A positive decimal: `digits * 10 ^ scale`. -/
structure Decimal where
  digits : Nat
  scale : Int
  deriving DecidableEq, Repr, Inhabited

/-- Positive rationals as pairs: is `a / b` below `c / d`? -/
def ratioLt (a b c d : Nat) : Bool :=
  decide (a * d < c * b)

/-- Twice `m * 2 ^ e` as a ratio, scaled so that half a unit in the last place is an integer. -/
structure Span where
  low : Nat
  value : Nat
  high : Nat
  den : Nat
  closed : Bool
  deriving Repr

/-- The reals that round to `m * 2 ^ e`: the ends lie half-way to the neighbours, and belong to the
interval when the mantissa is even. -/
def roundingSpan (m : Nat) (e : Int) : Span :=
  let up : Nat := twoTo e.toNat
  let den : Nat := 4 * twoTo (-e).toNat
  -- Just above a power of two the neighbour below is only half as far away.
  let gap := if m = twoTo 52 && decide (minExponent < e) then 1 else 2
  { low := (4 * m - gap) * up, value := 4 * m * up, high := (4 * m + 2) * up, den := den
    closed := m % 2 == 0 }

/-- Does the decimal `d * 10 ^ scale` lie in the interval? -/
def Span.holds (s : Span) (d : Nat) (scale : Int) : Bool :=
  let num := d * tenTo scale.toNat
  let den := tenTo (-scale).toNat
  if s.closed then !ratioLt num den s.low s.den && !ratioLt s.high s.den num den
  else ratioLt s.low s.den num den && ratioLt num den s.high s.den

/-- The least `k` with `num / den < 10 ^ k`, searched upwards from a start that is low enough. -/
def leadingPower (num den : Nat) : Nat → Int → Int
  | 0, k => k
  | steps + 1, k =>
    if ratioLt num den (tenTo k.toNat) (tenTo (-k).toNat) then k
    else leadingPower num den steps (k + 1)

/-- The decimal with `n` digits nearest to the value, if one of its two neighbours on that grid
lies in the interval; `k` is the power of ten just above the value. -/
def Span.nearest? (s : Span) (k : Int) (n : Nat) : Option Decimal :=
  let scale := k - n
  let num := s.value * tenTo (-scale).toNat
  let den := s.den * tenTo scale.toNat
  let below := num / den
  let above := below + 1
  let okBelow := below ≠ 0 && s.holds below scale
  let okAbove := s.holds above scale
  let rest := num % den
  if okBelow && okAbove then
    let takeBelow := 2 * rest < den || (2 * rest == den && below % 2 == 0)
    some ⟨if takeBelow then below else above, scale⟩
  else if okBelow then some ⟨below, scale⟩
  else if okAbove then some ⟨above, scale⟩
  else none

/-- The first digit count from `n` on that has a decimal in the interval. -/
def Span.search (s : Span) (k : Int) : Nat → Nat → Decimal
  | 0, n => ⟨s.value * tenTo (n - k.toNat) / s.den, k - n⟩
  | steps + 1, n => (s.nearest? k n).getD (s.search k steps (n + 1))

/-- Moves the zeros at the end of the digits into the scale. -/
def Decimal.normalize (d : Decimal) : Nat → Decimal
  | 0 => d
  | steps + 1 =>
    if d.digits ≠ 0 && d.digits % 10 == 0 then
      Decimal.normalize ⟨d.digits / 10, d.scale + 1⟩ steps
    else d

/-- The shortest decimal that reads back as the positive value `m * 2 ^ e`. -/
def shortest (m : Nat) (e : Int) : Decimal :=
  let s := roundingSpan m e
  let k := leadingPower s.value s.den 700 (-330)
  (s.search k 17 1).normalize 20

/-- How a decimal is laid out as text. -/
structure Layout where
  /-- The least power of ten of the first digit that is written positionally. -/
  least : Int
  /-- The least power of ten of the first digit that is written with an exponent again. -/
  most : Int
  /-- The least number of digits of an exponent. -/
  exponentWidth : Nat
  deriving Repr

/-- Values from `10 ^ -4` up to `10 ^ 16` are written positionally, and an exponent has a sign and
at least two digits. -/
def layout : Layout := { least := -4, most := 16, exponentWidth := 2 }

/-- The digits of a natural number. -/
def digitText (n : Nat) : String :=
  String.ofList (Nat.toDigits 10 n)

/-- The text, padded with zeros on the left to the given width. -/
def padLeft (width : Nat) (s : String) : String :=
  String.ofList (List.replicate (width - s.length) '0') ++ s

/-- A positive decimal laid out as text, with a point always, or with an exponent. -/
def Decimal.text (l : Layout) (d : Decimal) : String :=
  let ds := Nat.toDigits 10 d.digits
  let n := ds.length
  let lead : Int := d.scale + n - 1
  if l.least ≤ lead && lead < l.most then
    if 0 ≤ d.scale then
      String.ofList ds ++ String.ofList (List.replicate d.scale.toNat '0') ++ ".0"
    else if 0 ≤ lead then
      String.ofList (ds.take (lead.toNat + 1)) ++ "." ++ String.ofList (ds.drop (lead.toNat + 1))
    else
      "0." ++ String.ofList (List.replicate ((-lead).toNat - 1) '0') ++ String.ofList ds
  else
    let body := match ds with
      | [] => ""
      | [c] => String.ofList [c]
      | c :: rest => String.ofList [c] ++ "." ++ String.ofList rest
    let sign := if lead < 0 then "-" else "+"
    body ++ "e" ++ sign ++ padLeft l.exponentWidth (digitText lead.natAbs)

/-- The text of a floating point number: the shortest decimal that reads back, or `inf`. -/
def text (x : Binary64) : String :=
  let sign (negative : Bool) := if negative then "-" else ""
  match x with
  | .infinite s => sign s ++ "inf"
  | .finite s 0 _ => sign s ++ "0.0"
  | .finite s m e => sign s ++ (shortest m e).text layout

end RouteScribe.Binary64
