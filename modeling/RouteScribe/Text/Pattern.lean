/-!
# Patterns of characters

Regular patterns, matched by taking derivatives: the derivative of a pattern by a character fits
what may follow that character.  A text fits when the last derivative fits the empty text.
-/

namespace RouteScribe.Text

inductive Pattern where
  /-- Fits nothing. -/
  | never
  /-- Fits the empty text. -/
  | blank
  /-- Fits one character in one of the closed ranges. -/
  | oneOf (ranges : List (Char × Char))
  | seq (first second : Pattern)
  | alt (left right : Pattern)
  /-- Any number of repetitions. -/
  | star (body : Pattern)
  deriving DecidableEq, Repr

namespace Pattern

/-- Does the pattern fit the empty text? -/
def fitsEmpty : Pattern → Bool
  | .never => false
  | .blank => true
  | .oneOf _ => false
  | .seq p q => p.fitsEmpty && q.fitsEmpty
  | .alt p q => p.fitsEmpty || q.fitsEmpty
  | .star _ => true

/-- A sequence, without parts that do not matter. -/
def andThen : Pattern → Pattern → Pattern
  | .never, _ => .never
  | _, .never => .never
  | .blank, q => q
  | p, .blank => p
  | p, q => .seq p q

/-- An alternative, without parts that do not matter. -/
def orElse (p q : Pattern) : Pattern :=
  if p = .never then q else if q = .never then p else if p = q then p else .alt p q

/-- What may follow the given character. -/
def derive (c : Char) : Pattern → Pattern
  | .never => .never
  | .blank => .never
  | .oneOf ranges => if ranges.any fun r => r.1 ≤ c && c ≤ r.2 then .blank else .never
  | .seq p q =>
    if p.fitsEmpty then orElse (andThen (derive c p) q) (derive c q) else andThen (derive c p) q
  | .alt p q => orElse (derive c p) (derive c q)
  | .star p => andThen (derive c p) (.star p)

/-- Does the pattern fit the whole text? -/
def fits : Pattern → List Char → Bool
  | p, [] => p.fitsEmpty
  | p, c :: cs => (p.derive c).fits cs

/-! ## Building patterns -/

def char (c : Char) : Pattern := .oneOf [(c, c)]

/-- One of the characters of a string. -/
def anyOf (s : String) : Pattern := .oneOf (s.toList.map fun c => (c, c))

/-- The string itself. -/
def word (s : String) : Pattern := s.toList.foldr (fun c p => andThen (char c) p) .blank

/-- One of the strings. -/
def words (ss : List String) : Pattern := ss.foldr (fun s p => orElse (word s) p) .never

/-- One pattern after the other. -/
def chain (ps : List Pattern) : Pattern := ps.foldr andThen .blank

/-- One of the patterns. -/
def choice (ps : List Pattern) : Pattern := ps.foldr orElse .never

def opt (p : Pattern) : Pattern := .alt p .blank

/-- At least one repetition. -/
def plus (p : Pattern) : Pattern := .seq p (.star p)

/-- A decimal digit. -/
def digit : Pattern := .oneOf [('0', '9')]

/-- Exactly `n` repetitions. -/
def times (n : Nat) (p : Pattern) : Pattern := chain (List.replicate n p)

end Pattern

end RouteScribe.Text
