/-!
# Binary floating point numbers of 64 bits

A number with a fraction or an exponent is read as the nearest 64-bit binary floating point number.
The value is kept exactly, as a sign, a mantissa below `2 ^ 53` and a power of two, and it is
computed in the natural numbers: no operation of the machine's own floating point is involved, so
every step can be reasoned about.
-/

namespace RouteScribe

/-- A floating point value that is not undefined.  A finite one is `mantissa * 2 ^ exponent`, with
the sign apart. -/
inductive Binary64 where
  | finite (negative : Bool) (mantissa : Nat) (exponent : Int)
  | infinite (negative : Bool)
  deriving DecidableEq, Repr, Inhabited

namespace Binary64

/-- A power of two. -/
def twoTo (n : Nat) : Nat := Nat.pow 2 n

/-- A power of ten. -/
def tenTo (n : Nat) : Nat := Nat.pow 10 n

/-- The quotient rounded to the nearest integer, a half going to the even neighbour. -/
def roundDiv (num den : Nat) : Nat :=
  let q := num / den
  let r := num % den
  if 2 * r < den then q
  else if den < 2 * r then q + 1
  else if q % 2 = 0 then q else q + 1

/-- The smallest exponent: below it the mantissa loses digits instead. -/
def minExponent : Int := -1074

/-- The largest exponent of a finite value. -/
def maxExponent : Int := 971

/-- The exponent that gives `num / den` a mantissa of 53 binary digits, unless that is below the
smallest exponent. -/
def scaleOf (num den : Nat) : Int :=
  let guess : Int := (Nat.log2 num : Int) - (Nat.log2 den : Int) - 52
  -- The quotient of the powers of two below `num` and `den` is off by less than a factor of two.
  let tooLarge : Bool :=
    if 0 ≤ guess then decide (num < den * twoTo (52 + guess.toNat))
    else decide (num * twoTo (-guess).toNat < den * twoTo 52)
  max minExponent (if tooLarge then guess - 1 else guess)

/-- The floating point value nearest to `num / den`. -/
def ofRatio (negative : Bool) (num den : Nat) : Binary64 :=
  if num = 0 then .finite negative 0 minExponent
  else
    let e := scaleOf num den
    let m := if 0 ≤ e then roundDiv num (den * twoTo e.toNat)
      else roundDiv (num * twoTo (-e).toNat) den
    let (m, e) := if m = twoTo 53 then (twoTo 52, e + 1) else (m, e)
    if maxExponent < e then .infinite negative else .finite negative m e

/-- The floating point value nearest to `digits * 10 ^ scale`, where `count` bounds the number of
decimal digits.  Magnitudes far outside the range are decided by their exponent alone. -/
def ofDecimal (negative : Bool) (digits count : Nat) (scale : Int) : Binary64 :=
  if digits = 0 then .finite negative 0 minExponent
  else if scale + count < -400 then .finite negative 0 minExponent
  else if 400 + (count : Int) < scale + count then .infinite negative
  else if 0 ≤ scale then ofRatio negative (digits * tenTo scale.toNat) 1
  else ofRatio negative digits (tenTo (-scale).toNat)

/-- The integer part, the fraction being dropped; an infinite value has none. -/
def truncate? : Binary64 → Option Int
  | .infinite _ => none
  | .finite negative m e =>
    let n : Nat := if 0 ≤ e then m * twoTo e.toNat else m / twoTo (-e).toNat
    some (if negative then -(n : Int) else n)

/-- The value as an integer, when it is one. -/
def toInt? : Binary64 → Option Int
  | .infinite _ => none
  | .finite negative m e =>
    let whole : Bool := if 0 ≤ e then true else m % twoTo (-e).toNat == 0
    if whole then truncate? (.finite negative m e) else none

/-- The value with the opposite sign. -/
def neg : Binary64 → Binary64
  | .infinite s => .infinite (!s)
  | .finite s m e => .finite (!s) m e

end Binary64

end RouteScribe
