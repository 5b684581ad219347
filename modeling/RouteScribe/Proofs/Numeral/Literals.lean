import Mathlib.Data.List.TakeWhile
import Mathlib.Data.Nat.Digits.Defs
import RouteScribe.Proofs.Source.Numbers

/-!
# The values of numeric literals

Numeric literals as a grammar: digits of a base with single underscores between them, the marks of the
bases, the suffix of big integers, fractions and exponents.  An integer literal denotes the number
whose digits it spells, and that is what reading it gives, unless it is decimal and has more than
`maxDigits` digits: then it is infinite (`read_literals`).  Any other numeric literal is read as well, or
it is left without a value.

Reading takes a literal apart by its characters and never builds digits, so what connects the two is
the list of characters without underscores, which is that of the digits
(`Digits.withoutUnderscores_chars`).
-/

namespace RouteScribe.Numeral

/-! ## Digits as they are written -/

/-- A digit of a base up to sixteen; letters are written large or small. -/
structure Digit (base : Nat) where
  value : Fin base
  upper : Bool

/-- The character of a digit. -/
def Digit.char {base : Nat} (d : Digit base) : Char :=
  if d.upper then (Nat.digitChar d.value).toUpper else Nat.digitChar d.value

/-- Digits of a base, at least one.  Each of the others says whether an underscore stands before it. -/
structure Digits (base : Nat) where
  first : Digit base
  rest : List (Bool × Digit base)

/-- The bases that have a mark. -/
inductive Radix where
  | binary | octal | hexadecimal

namespace Radix

def base : Radix → Nat
  | .binary => 2
  | .octal => 8
  | .hexadecimal => 16

/-- The mark of a base, large or small. -/
def mark (upper : Bool) : Radix → Char
  | .binary => if upper then 'B' else 'b'
  | .octal => if upper then 'O' else 'o'
  | .hexadecimal => if upper then 'X' else 'x'

/-- The characters that a literal with the mark of the base may have behind it, underscores aside. -/
def isDigit : Radix → Char → Bool
  | .binary => isBinaryDigit
  | .octal => isOctalDigit
  | .hexadecimal => isHexDigit

end Radix

namespace Digit

variable {base : Nat} (d : Digit base)

lemma digitValue_char (h : base ≤ 16) : digitValue d.char = d.value := by
  have hall : ∀ (v : Fin 16) (upper : Bool),
      digitValue (if upper then (Nat.digitChar v).toUpper else Nat.digitChar v) = v := by decide
  exact hall ⟨d.value, by omega⟩ d.upper

lemma isHexDigit_char (h : base ≤ 16) : isHexDigit d.char = true := by
  have hall : ∀ (v : Fin 16) (upper : Bool),
      isHexDigit (if upper then (Nat.digitChar v).toUpper else Nat.digitChar v) = true := by decide
  exact hall ⟨d.value, by omega⟩ d.upper

lemma isDigit_char (d : Digit 10) : d.char.isDigit = true := by
  have hall : ∀ (v : Fin 10) (upper : Bool),
      (if upper then (Nat.digitChar v).toUpper else Nat.digitChar v).isDigit = true := by decide
  exact hall d.value d.upper

lemma isDigit_char_radix (radix : Radix) (d : Digit radix.base) : radix.isDigit d.char = true := by
  have hall : ∀ (v : Fin radix.base) (upper : Bool),
      radix.isDigit (if upper then (Nat.digitChar v).toUpper else Nat.digitChar v) = true := by
    cases radix <;> decide
  exact hall d.value d.upper

/-- Only zero is written as zero. -/
lemma char_eq_zero (d : Digit 10) : d.char = '0' ↔ d.value = 0 := by
  have hall : ∀ (v : Fin 10) (upper : Bool),
      (if upper then (Nat.digitChar v).toUpper else Nat.digitChar v) = '0' ↔ v = 0 := by decide
  exact hall d.value d.upper

end Digit

namespace Digits

variable {base : Nat} (ds : Digits base)

/-- The digits without the underscores. -/
def all : List (Digit base) := ds.first :: ds.rest.map (·.2)

/-- The characters of the digits and underscores. -/
def chars : List Char :=
  ds.first.char :: ds.rest.flatMap fun d => if d.1 then ['_', d.2.char] else [d.2.char]

/-- The number that the digits spell, the last one counting once. -/
def value : Nat := Nat.ofDigits base (ds.all.map fun d => d.value.val).reverse

/-- What is left without the underscores are the digits. -/
lemma withoutUnderscores_chars (h : base ≤ 16) :
    withoutUnderscores ds.chars = ds.all.map Digit.char := by
  obtain ⟨first, rest⟩ := ds
  have hline : withoutUnderscores ['_'] = [] := rfl
  have happend (l l' : List Char) :
      withoutUnderscores (l ++ l') = withoutUnderscores l ++ withoutUnderscores l' :=
    List.filter_append l l'
  have hdigit (d : Digit base) : withoutUnderscores [d.char] = [d.char] :=
    withoutUnderscores_cons (d.isHexDigit_char h) []
  have hrest : withoutUnderscores
      (rest.flatMap fun d => if d.1 then ['_', d.2.char] else [d.2.char]) =
        rest.map fun d => d.2.char := by
    induction rest with
    | nil => rfl
    | cons d rest ih =>
      rw [List.flatMap_cons, happend, ih, List.map_cons]
      split
      · rw [← List.singleton_append, happend, hline, hdigit, List.nil_append, List.singleton_append]
      · rw [hdigit, List.singleton_append]
  rw [chars, withoutUnderscores_cons (first.isHexDigit_char h), hrest, all, List.map_cons,
    List.map_map]
  rfl

/-- The digits are read as the number they spell. -/
lemma ofDigits_chars (h : base ≤ 16) : ofDigits base (withoutUnderscores ds.chars) = ds.value := by
  rw [withoutUnderscores_chars ds h, value]
  induction ds.all using List.reverseRecOn with
  | nil => rfl
  | append_singleton l d ih =>
    rw [List.map_append, List.map_singleton, ofDigits_append, ih, d.digitValue_char h,
      List.map_append, List.map_singleton, List.reverse_concat, Nat.ofDigits_cons]
    ring

/-- Digits of which the first is not zero spell a number as large as their count says. -/
lemma pow_le_value (ds : Digits base) (h : 0 < ds.first.value.val) :
    base ^ ds.rest.length ≤ ds.value := by
  let tail : List Nat := (ds.rest.map fun d => d.2.value.val).reverse
  have hlength : tail.length = ds.rest.length := by simp [tail]
  have hvalue : ds.value = Nat.ofDigits base tail + base ^ ds.rest.length * ds.first.value.val := by
    have hall : (ds.all.map fun d => d.value.val).reverse = tail ++ [ds.first.value.val] := by
      simp [all, tail, List.map_map, Function.comp_def]
    rw [value, hall, Nat.ofDigits_append, hlength, Nat.ofDigits_singleton]
  calc base ^ ds.rest.length
      ≤ base ^ ds.rest.length * ds.first.value.val := Nat.le_mul_of_pos_right _ h
    _ ≤ ds.value := by
        rw [hvalue]
        exact Nat.le_add_left _ _

/-- Every character is a digit or an underscore. -/
lemma forall_chars {P : Char → Prop} (hdigit : ∀ d : Digit base, P d.char) (hline : P '_') :
    ∀ c ∈ ds.chars, P c := by
  intro c hc
  rcases List.mem_cons.1 hc with rfl | hc
  · exact hdigit ds.first
  · obtain ⟨d, -, hd⟩ := List.mem_flatMap.1 hc
    split at hd
    · rcases List.mem_cons.1 hd with rfl | hd
      · exact hline
      · rw [List.mem_singleton.1 hd]
        exact hdigit d.2
    · rw [List.mem_singleton.1 hd]
      exact hdigit d.2

/-- The last character is a digit. -/
lemma exists_chars_concat : ∃ front, ∃ d : Digit base, ds.chars = front ++ [d.char] := by
  rcases hrest : ds.rest.eq_nil_or_concat with h | ⟨front, d, h⟩
  · exact ⟨[], ds.first, by rw [chars, h]; rfl⟩
  · refine ⟨ds.first.char :: front.flatMap (fun d => if d.1 then ['_', d.2.char] else [d.2.char]) ++
      if d.1 then ['_'] else [], d.2, ?_⟩
    rw [chars, h, List.concat_eq_append, List.flatMap_append, List.flatMap_singleton]
    split <;> simp

end Digits

/-! ## Literals -/

/-- The suffix of a big integer. -/
def bigSuffix (big : Bool) : List Char := if big then ['n'] else []

/-- Integer literals.  A decimal one of several digits does not start with zero. -/
inductive IntegerLiteral where
  | decimal (digits : Digits 10) (proper : digits.first.value = 0 → digits.rest = []) (big : Bool)
  | based (radix : Radix) (upper : Bool) (digits : Digits radix.base) (big : Bool)

namespace IntegerLiteral

/-- The characters of the literal before the suffix. -/
def body : IntegerLiteral → List Char
  | .decimal digits _ _ => digits.chars
  | .based radix upper digits _ => '0' :: radix.mark upper :: digits.chars

def isBig : IntegerLiteral → Bool
  | .decimal _ _ big => big
  | .based _ _ _ big => big

def chars (l : IntegerLiteral) : List Char := l.body ++ bigSuffix l.isBig

/-- The integer that the literal denotes. -/
def value : IntegerLiteral → Nat
  | .decimal digits _ _ => digits.value
  | .based _ _ digits _ => digits.value

/-- A literal that can be converted digit by digit: a decimal one has no more digits than are allowed. -/
def IsShort : IntegerLiteral → Prop
  | .decimal digits _ _ => digits.all.length ≤ maxDigits
  | .based _ _ _ _ => True

end IntegerLiteral

/-- The digits of a decimal number and its point. -/
inductive Mantissa where
  | whole (digits : Digits 10)
  /-- A point behind digits, and perhaps a fraction. -/
  | pointed (digits : Digits 10) (fraction : Option (Digits 10))
  | pointFirst (digits : Digits 10)

/-- The characters of the digits and the point. -/
def Mantissa.chars : Mantissa → List Char
  | .whole digits => digits.chars
  | .pointed digits fraction => digits.chars ++ '.' :: (fraction.map Digits.chars).getD []
  | .pointFirst digits => '.' :: digits.chars

/-- An exponent with its mark and sign. -/
structure Exponent where
  upper : Bool
  /-- Whether there is a sign, and whether it is that of a negative number. -/
  sign : Option Bool
  digits : Digits 10

/-- The characters of an exponent. -/
def Exponent.chars (e : Exponent) : List Char :=
  (if e.upper then 'E' else 'e') ::
    (e.sign.map fun negative => if negative then '-' else '+').toList ++ e.digits.chars

/-- Numeric literals. -/
inductive NumericLiteral where
  | integer (l : IntegerLiteral)
  | decimal (mantissa : Mantissa) (exponent : Option Exponent)

def NumericLiteral.chars : NumericLiteral → List Char
  | .integer l => l.chars
  | .decimal mantissa exponent => mantissa.chars ++ (exponent.map Exponent.chars).getD []

/-! ## Taking the suffix off -/

section

variable {test : Char → Bool} {front : List Char} {c : Char}

lemma dropRightWhile_concat (front : List Char) (h : test c = false) :
    Text.dropRightWhile test (front ++ [c]) = front ++ [c] := by
  simp [Text.dropRightWhile, h]

lemma dropRightWhile_concat_of_test (front : List Char) (h : test c = true) :
    Text.dropRightWhile test (front ++ [c]) = Text.dropRightWhile test front := by
  simp [Text.dropRightWhile, h]

/-- Nothing but the suffix is taken off a text that starts with no blank and ends with a digit. -/
lemma bodyOf_append_bigSuffix {cs : List Char} {d : Char}
    (hfirst : ∀ c ∈ cs.head?, Text.isBlank c = false) (hlast : cs = front ++ [d])
    (hd : isHexDigit d = true) (big : Bool) : bodyOf (cs ++ bigSuffix big) = cs := by
  obtain ⟨hblank, hsuffix, hbreak, -⟩ := kept_of_isHexDigit hd
  have hleft : Text.trimLeft (cs ++ bigSuffix big) = cs ++ bigSuffix big := by
    match cs, hfirst, hlast with
    | c :: rest, hfirst, _ => exact Text.trimLeft_eq_self (hfirst c rfl)
    | [], _, hlast => simp at hlast
  have hcut : withoutSuffix (cs ++ bigSuffix big) = cs := by
    have hkept : Text.dropRightWhile (· == 'n') cs = cs := by
      rw [hlast]
      exact dropRightWhile_concat front hsuffix
    rw [withoutSuffix, Text.trim, hleft]
    cases big with
    | false =>
      rw [bigSuffix, if_neg Bool.false_ne_true, List.append_nil]
      rwa [hlast, dropRightWhile_concat front hblank, ← hlast]
    | true =>
      rw [bigSuffix, if_pos rfl, dropRightWhile_concat cs (by decide)]
      rwa [dropRightWhile_concat_of_test cs (by decide)]
  rw [bodyOf, hcut, if_neg]
  rw [hlast, List.getLast?_concat]
  exact fun h => hbreak (Option.some.inj h)

end

namespace IntegerLiteral

variable (l : IntegerLiteral)

/-- A literal starts with a digit and ends with one. -/
lemma exists_body_digits : (∃ c rest, l.body = c :: rest ∧ isHexDigit c = true) ∧
    ∃ front d, l.body = front ++ [d] ∧ isHexDigit d = true := by
  cases l with
  | decimal digits proper big =>
    obtain ⟨front, d, hlast⟩ := digits.exists_chars_concat
    exact ⟨⟨_, _, rfl, digits.first.isHexDigit_char (by decide)⟩,
      front, d.char, hlast, d.isHexDigit_char (by decide)⟩
  | based radix upper digits big =>
    obtain ⟨front, d, hlast⟩ := digits.exists_chars_concat
    have hbase : radix.base ≤ 16 := by cases radix <;> decide
    refine ⟨⟨_, _, rfl, by decide⟩, '0' :: radix.mark upper :: front, d.char, ?_,
      d.isHexDigit_char hbase⟩
    rw [body, hlast, List.cons_append, List.cons_append]

lemma bodyOf_chars : bodyOf l.chars = l.body := by
  obtain ⟨⟨c, rest, hfirst, hc⟩, front, d, hlast, hd⟩ := l.exists_body_digits
  refine bodyOf_append_bigSuffix (fun c' hc' => ?_) hlast hd l.isBig
  rw [hfirst, List.head?_cons, Option.mem_some_iff] at hc'
  exact hc' ▸ (kept_of_isHexDigit hc).1

end IntegerLiteral

/-! ## Shapes -/

/-- Digits with a mark have the shape of their base. -/
lemma shape?_based (radix : Radix) (upper : Bool) (ds : Digits radix.base) :
    shape? ('0' :: radix.mark upper :: ds.chars) = some (.based radix.base ds.chars) := by
  have hall : ds.chars.all (fun c => radix.isDigit c || c == '_') = true :=
    List.all_eq_true.2 (ds.forall_chars (fun d => by rw [d.isDigit_char_radix]; rfl) (by simp))
  have hne : ds.chars ≠ [] := List.cons_ne_nil _ _
  have hbased : basedShape? ('0' :: radix.mark upper :: ds.chars) =
      if ds.chars ≠ [] && ds.chars.all (fun c => radix.isDigit c || c == '_') then
        some (.based radix.base ds.chars) else none := by
    cases radix <;> cases upper <;> rfl
  rw [shape?, hbased, if_pos (by simp [hne, hall])]

/-- Digits without a mark have the shape of a decimal number. -/
lemma shape?_decimal (ds : Digits 10) (proper : ds.first.value = 0 → ds.rest = []) :
    shape? ds.chars = some (.decimal ds.chars none none) := by
  have hbased : basedShape? ds.chars = none := by
    by_cases hzero : ds.first.value = 0
    · rw [Digits.chars, proper hzero, (Digit.char_eq_zero _).2 hzero]
      rfl
    · unfold basedShape?
      split
      · rename_i heq
        exact absurd ((Digit.char_eq_zero _).1 (List.cons.inj heq).1) hzero
      · rfl
  have hall : ∀ c ∈ ds.chars, (c.isDigit || c == '_') = true :=
    ds.forall_chars (fun d => by rw [d.isDigit_char]; rfl) (by decide)
  have htake : ds.chars.takeWhile (fun c => c.isDigit || c == '_') = ds.chars :=
    List.takeWhile_eq_self_iff.2 hall
  have hdrop : ds.chars.dropWhile (fun c => c.isDigit || c == '_') = [] :=
    List.dropWhile_eq_nil_iff.2 hall
  have hne : ds.chars ≠ [] := List.cons_ne_nil _ _
  rw [shape?, hbased]
  simp only [decimalShape?, htake, hdrop, if_neg hne]
  rfl

lemma value?_based {base : Nat} (ds : Digits base) (h : base ≤ 16) :
    (Shape.based base ds.chars).value? false = some (.exact ds.value) := by
  have hvalue := ds.ofDigits_chars h
  rw [Shape.value?]
  rw [ds.withoutUnderscores_chars h] at hvalue ⊢
  simp only [Digits.all, List.map_cons] at hvalue ⊢
  rw [hvalue]
  rfl

/-- How digits without a mark are read: digit by digit, or through floating point. -/
lemma value?_decimal (ds : Digits 10) (proper : ds.first.value = 0 → ds.rest = []) :
    (Shape.decimal ds.chars none none).value? false = some (if ds.all.length ≤ maxDigits then
      .exact ds.value else ofBinary64 (.ofDecimal false ds.value ds.all.length 0)) := by
  have hvalue := ds.ofDigits_chars (by decide)
  have hchars := ds.withoutUnderscores_chars (by decide)
  have hlength : (withoutUnderscores ds.chars).length = ds.all.length := by
    rw [hchars, List.length_map]
  have hleading : ((withoutUnderscores ds.chars).head? = some '0' &&
      (withoutUnderscores ds.chars).any (· != '0')) = false := by
    rw [hchars, Digits.all, List.map_cons]
    by_cases hzero : ds.first.value = 0
    · rw [proper hzero, (Digit.char_eq_zero _).2 hzero]
      rfl
    · have hne : ds.first.char ≠ '0' := mt (Digit.char_eq_zero _).1 hzero
      simp [hne]
  have hpart : withoutUnderscores ((none : Option (List Char)).getD []) = [] := rfl
  have hne : withoutUnderscores ds.chars ≠ [] := by
    rw [hchars]
    simp [Digits.all]
  simp only [Shape.value?, hpart, List.append_nil, if_neg hne, hleading, hvalue, hlength]
  split
  case isTrue hshort =>
    have hshort : ds.all.length ≤ maxDigits := by simpa using hshort
    rw [if_pos hshort]
    rfl
  case isFalse hlong =>
    have hlong : ¬ds.all.length ≤ maxDigits := by simpa using hlong
    rw [if_neg hlong]
    rfl

/-! ## Numbers beyond the range of floating point -/

/-- A number with more than a thousand binary digits is larger than every finite value. -/
lemma ofRatio_of_large (negative : Bool) {n : Nat} (h : 1025 ≤ Nat.log2 n) :
    Binary64.ofRatio negative n 1 = .infinite negative := by
  have hne : n ≠ 0 := by
    rintro rfl
    exact absurd h (by decide)
  have hscale : Binary64.maxExponent < Binary64.scaleOf n 1 := by
    have hone : Nat.log2 1 = 0 := by decide
    refine lt_max_of_lt_right ?_
    simp only [Binary64.maxExponent, hone]
    split
    · omega
    · omega
  -- Rounding up may add one to the exponent.
  have hrounded (m : Nat) : Binary64.maxExponent < (if m = Binary64.twoTo 53 then
      (Binary64.twoTo 52, Binary64.scaleOf n 1 + 1) else (m, Binary64.scaleOf n 1)).2 := by
    split
    · exact hscale.trans (Int.lt_succ _)
    · exact hscale
  rw [Binary64.ofRatio, if_neg hne]
  exact if_pos (hrounded _)

lemma ofDecimal_of_large (negative : Bool) {n : Nat} (count : Nat) (h : 1025 ≤ Nat.log2 n) :
    Binary64.ofDecimal negative n count 0 = .infinite negative := by
  have hne : n ≠ 0 := by
    rintro rfl
    exact absurd h (by decide)
  have hone : n * Binary64.tenTo (0 : Int).toNat = n := Nat.mul_one n
  rw [Binary64.ofDecimal, if_neg hne, if_neg (by omega), if_neg (by omega), if_pos le_rfl, hone]
  exact ofRatio_of_large negative h

namespace Digits

variable {ds : Digits 10} (proper : ds.first.value = 0 → ds.rest = [])

include proper

/-- A number of several decimal digits has at least as many binary digits. -/
lemma length_le_log2_value (hrest : ds.rest ≠ []) : ds.rest.length ≤ Nat.log2 ds.value := by
  have hfirst : 0 < ds.first.value.val :=
    Nat.pos_of_ne_zero fun hzero => hrest (proper (Fin.ext hzero))
  have hlarge : 10 ^ ds.rest.length ≤ ds.value := ds.pow_le_value hfirst
  have hne : ds.value ≠ 0 := (lt_of_lt_of_le (Nat.pow_pos (by decide)) hlarge).ne'
  have hbits : 2 ^ ds.rest.length ≤ 10 ^ ds.rest.length := Nat.pow_le_pow_left (by decide) _
  exact (Nat.le_log2 hne).2 (hbits.trans hlarge)

/-- A number with more digits than are allowed is beyond the range. -/
lemma large_of_long (hlong : maxDigits < ds.all.length) : 1025 ≤ Nat.log2 ds.value := by
  have hlength : ds.all.length = ds.rest.length + 1 := by simp [all]
  have hlimit : 1025 ≤ maxDigits := by decide
  have hrest : ds.rest ≠ [] := by
    intro hnil
    rw [hnil, List.length_nil] at hlength
    omega
  have hbits := length_le_log2_value proper hrest
  omega

end Digits

/-! ## Integer literals -/

namespace IntegerLiteral

variable (l : IntegerLiteral)

/-- An integer literal has no sign, so that it is read as it is. -/
lemma read_chars_eq : ∃ text, read (String.ofList l.chars) = readUnsigned false l.body text := by
  have hminus : ∀ rest, bodyOf l.chars ≠ '-' :: rest := by
    intro rest heq
    obtain ⟨⟨c, rest', hfirst, hc⟩, -⟩ := l.exists_body_digits
    rw [l.bodyOf_chars, hfirst] at heq
    rw [(List.cons.inj heq).1] at hc
    exact absurd hc (by decide)
  refine ⟨withoutUnderscores (withoutSuffix l.chars), ?_⟩
  rw [read_of_unsigned hminus, l.bodyOf_chars]

/-- A short literal is read as the integer it denotes. -/
lemma read_chars_of_isShort (hshort : l.IsShort) :
    read (String.ofList l.chars) = .ok (some (.exact l.value)) := by
  obtain ⟨text, hread⟩ := l.read_chars_eq
  rw [hread, readUnsigned]
  cases l with
  | decimal digits proper big =>
    have hdigits : digits.all.length ≤ maxDigits := hshort
    rw [body, shape?_decimal digits proper]
    simp only [value?_decimal digits proper, if_pos hdigits]
    rfl
  | based radix upper digits big =>
    have hbase : radix.base ≤ 16 := by cases radix <;> decide
    rw [body, shape?_based radix upper digits]
    simp only [value?_based digits hbase]
    rfl

/-- A decimal literal with too many digits is read as an infinite number. -/
lemma read_chars_of_not_isShort (hlong : ¬l.IsShort) :
    read (String.ofList l.chars) = .ok (some (.fractional (.infinite false))) := by
  obtain ⟨text, hread⟩ := l.read_chars_eq
  rw [hread, readUnsigned]
  cases l with
  | decimal digits proper big =>
    have hdigits : ¬digits.all.length ≤ maxDigits := hlong
    have hlarge := Digits.large_of_long proper (Nat.lt_of_not_le hdigits)
    rw [body, shape?_decimal digits proper]
    simp only [value?_decimal digits proper, if_neg hdigits, ofDecimal_of_large false _ hlarge]
    rfl
  | based radix upper digits big => exact absurd trivial hlong

end IntegerLiteral

/-! ## Other numbers -/

/-- What starts with digits is written as a literal, unless the digits are a zero before a mark. -/
lemma Digits.written_append (ds : Digits 10) {cs : List Char} (h : ∀ c ∈ cs.head?, c ∉ baseMarks) :
    Written (ds.chars ++ cs) := by
  refine .of (.digit ds.first.isDigit_char) (List.prefix_append [_] _) fun _ mark rest heq hmark => ?_
  rw [Digits.chars, List.cons_append] at heq
  have hsecond := (List.cons.inj heq).2
  rcases hrest : ds.rest with - | ⟨⟨separated, d⟩, rest'⟩
  · rw [hrest, List.flatMap_nil, List.nil_append] at hsecond
    exact h mark (hsecond ▸ List.head?_cons) hmark
  · rw [hrest, List.flatMap_cons, List.append_assoc] at hsecond
    cases separated with
    | true =>
      obtain rfl : '_' = mark := (List.cons.inj hsecond).1
      exact absurd hmark (by decide)
    | false =>
      have hd := d.isDigit_char
      rw [(List.cons.inj hsecond).1] at hd
      fin_cases hmark <;> exact absurd hd (by decide)

namespace NumericLiteral

lemma written_decimal (mantissa : Mantissa) (exponent : Option Exponent) :
    Written (mantissa.chars ++ (exponent.map Exponent.chars).getD []) := by
  cases mantissa with
  | whole digits =>
    refine digits.written_append ?_
    rcases exponent with - | ⟨upper, sign, ds⟩
    · simp
    · cases upper <;> simp [Exponent.chars, baseMarks]
  | pointed digits fraction =>
    rw [Mantissa.chars, List.append_assoc]
    exact digits.written_append (by simp [baseMarks])
  | pointFirst digits =>
    refine .of (.point digits.first.isDigit_char) ?_ (by simp)
    exact List.prefix_append ['.', digits.first.char] _

/-- A numeric literal is read, or it is left without a value. -/
lemma exists_read_chars (l : NumericLiteral) : ∃ v, read (String.ofList l.chars) = .ok v := by
  cases l with
  | integer l =>
    by_cases hshort : l.IsShort
    · exact ⟨_, l.read_chars_of_isShort hshort⟩
    · exact ⟨_, l.read_chars_of_not_isShort hshort⟩
  | decimal mantissa exponent => exact (written_decimal mantissa exponent).exists_read

end NumericLiteral

/-- **Reading literals.**  An integer literal is read as the integer it denotes exactly when it has the
mark of a base, and then any size, or is decimal with at most `maxDigits` digits: in either case with
underscores between digits, with or without the suffix of big integers.  A decimal integer literal of
more digits is read as an infinite number.  Every numeric literal, with fraction and exponent or without,
is read or left without a value. -/
theorem read_literals (l : IntegerLiteral) (n : NumericLiteral) :
    (read (String.ofList l.chars) = .ok (some (.exact l.value)) ↔ l.IsShort) ∧
    (¬l.IsShort → read (String.ofList l.chars) = .ok (some (.fractional (.infinite false)))) ∧
    ∃ v, read (String.ofList n.chars) = .ok v := by
  refine ⟨⟨fun hexact => ?_, l.read_chars_of_isShort⟩, l.read_chars_of_not_isShort,
    n.exists_read_chars⟩
  by_contra hlong
  rw [l.read_chars_of_not_isShort hlong] at hexact
  cases hexact

/-- The literal that is one more digit one than the number. -/
def ones (n : Nat) : IntegerLiteral :=
  .decimal ⟨⟨1, false⟩, List.replicate n (false, ⟨1, false⟩)⟩ nofun false

lemma chars_ones (n : Nat) : (ones n).chars = List.replicate (n + 1) '1' := by
  have hdigits : (List.replicate n ((false, ⟨1, false⟩) : Bool × Digit 10)).flatMap
      (fun d => if d.1 then ['_', d.2.char] else [d.2.char]) = List.replicate n '1' := by
    rw [List.flatMap_replicate]
    simp [Digit.char]
  show ('1' :: _) ++ [] = _
  rw [hdigits, List.append_nil, List.replicate_succ]

lemma isShort_ones (n : Nat) : (ones n).IsShort ↔ n + 1 ≤ maxDigits := by
  simp [ones, IntegerLiteral.IsShort, Digits.all]

/-- As many digits as are allowed, and one more. -/
theorem read_literals_of_ones :
    ((ones (maxDigits - 1)).IsShort ∧ read (String.ofList (List.replicate maxDigits '1')) =
      .ok (some (.exact (ones (maxDigits - 1)).value))) ∧
    ¬(ones maxDigits).IsShort ∧ read (String.ofList (List.replicate (maxDigits + 1) '1')) =
      .ok (some (.fractional (.infinite false))) := by
  have hshort : (ones (maxDigits - 1)).IsShort := (isShort_ones _).2 (by decide)
  have hlong : ¬(ones maxDigits).IsShort := mt (isShort_ones _).1 (by omega)
  have hexact := (read_literals (ones (maxDigits - 1)) (.integer (ones maxDigits))).1.2 hshort
  have hinfinite := (read_literals (ones maxDigits) (.integer (ones maxDigits))).2.1 hlong
  rw [chars_ones] at hexact hinfinite
  exact ⟨⟨hshort, hexact⟩, hlong, hinfinite⟩

/-- **A decimal integer literal that is not read as the integer it denotes**: 4301 digits one. -/
theorem infinite_of_ones : ∃ l : IntegerLiteral, l.chars = List.replicate 4301 '1' ∧
    read (String.ofList l.chars) ≠ .ok (some (.exact l.value)) := by
  have hlong : ¬(ones 4300).IsShort := mt (isShort_ones 4300).1 (by decide)
  refine ⟨ones 4300, chars_ones 4300, ?_⟩
  rw [(ones 4300).read_chars_of_not_isShort hlong]
  exact nofun

end RouteScribe.Numeral
