import RouteScribe.Text.Blank
import RouteScribe.Text.Fields

/-!
# Ignore patterns

Lines in the style of an ignore file select paths.  What searches for files sees the rules only that
lines are compiled to, `IgnoreRules`, and any compiler will do.

The compiler of this module is `compileIgnores`.  A line is cut at its slashes; `**` spans any number of
folders, `*` and `?` stay within one name, and brackets stand for one character.  A line without a slash
in front of its last name applies at every depth.  A line that names a folder selects everything below it
as well, and a line that starts with `!` takes the selection back.  Of all lines that fit a path the last
one decides.
-/

namespace RouteScribe.Files

/-! ## Rules -/

/-- What ignore lines are compiled to: which paths are selected, by their text. -/
structure IgnoreRules where
  selects : String → Bool

/-- Why a line is refused. -/
inductive BadLine where
  /-- Nothing is left of the line, or a backslash stands at the end of a name. -/
  | malformed
  /-- A bracket expression has a range that ends before it starts. -/
  | backwardRange
  deriving DecidableEq, Repr

/-- Compiles lines, unless one of them is refused. -/
abbrev IgnoreCompiler := List String → Except BadLine IgnoreRules

/-! ## Matching text -/

/-- A set of characters. -/
inductive CharTest where
  /-- Any character but a line feed. -/
  | any
  /-- Any character but a slash. -/
  | inName
  | exactly (c : Char)
  /-- A character in one of the closed ranges, or in none of them. -/
  | ranges (negated : Bool) (rs : List (Char × Char))
  deriving DecidableEq, Repr

def CharTest.holds : CharTest → Char → Bool
  | .any, c => c != '\n'
  | .inName, c => c != '/'
  | .exactly d, c => c == d
  | .ranges negated rs, c => (rs.any fun r => r.1 ≤ c && c ≤ r.2) != negated

/-- A piece of a compiled line. -/
inductive Piece where
  /-- One character of the set. -/
  | one (t : CharTest)
  /-- Any number of characters of the set. -/
  | run (t : CharTest)
  /-- Nothing, or some folders with the slash after them. -/
  | foldersAbove
  /-- Nothing, or a slash and something below it. -/
  | somethingBelow
  /-- A slash, or nothing. -/
  | maybeSlash
  /-- The end of the text, or a slash. -/
  | slashOrEnd
  /-- The end of the text; one line feed may still follow. -/
  | finish
  deriving DecidableEq, Repr

/-- How much matching a piece can still cause. -/
def Piece.weight : Piece → Nat
  | .foldersAbove | .somethingBelow => 4
  | .maybeSlash => 2
  | _ => 1

/-- How much matching all pieces can still cause. -/
def totalWeight : List Piece → Nat
  | [] => 0
  | p :: rest => p.weight + totalWeight rest

def atEnd (s : List Char) : Bool :=
  s = [] || s = ['\n']

/-- Do the pieces fit the text from its start on?  What follows them is not looked at. -/
def fitsHere (pieces : List Piece) (s : List Char) : Bool :=
  match pieces with
  | [] => true
  | .one t :: rest =>
    match s with
    | [] => false
    | c :: cs => t.holds c && fitsHere rest cs
  | .run t :: rest =>
    fitsHere rest s ||
      (match s with
       | [] => false
       | c :: cs => t.holds c && fitsHere (.run t :: rest) cs)
  | .foldersAbove :: rest =>
    fitsHere rest s || fitsHere (.one .any :: .run .any :: .one (.exactly '/') :: rest) s
  | .somethingBelow :: rest =>
    fitsHere rest s || fitsHere (.one (.exactly '/') :: .one .any :: .run .any :: rest) s
  | .maybeSlash :: rest =>
    fitsHere rest s || fitsHere (.one (.exactly '/') :: rest) s
  | .slashOrEnd :: rest =>
    (atEnd s && fitsHere rest s) ||
      (match s with
       | '/' :: cs => fitsHere rest cs
       | _ => false)
  | .finish :: rest => atEnd s && fitsHere rest s
termination_by (totalWeight pieces, s.length)
decreasing_by
  all_goals simp only [totalWeight, List.length_cons, Piece.weight, Prod.lex_def, true_and]
  all_goals omega

/-- Do the pieces fit the text from some place on? -/
def fitsSomewhere (pieces : List Piece) : List Char → Bool
  | [] => fitsHere pieces []
  | c :: cs => fitsHere pieces (c :: cs) || fitsSomewhere pieces cs

/-! ## Compiling a name pattern -/

/-- The ranges that the inside of a bracket expression lists; a hyphen between two characters makes
a range. -/
def bracketRanges : List Char → List (Char × Char)
  | a :: '-' :: b :: rest => (a, b) :: bracketRanges rest
  | a :: rest => (a, a) :: bracketRanges rest
  | [] => []

/-- A bracket expression, read after its opening bracket, and what follows it.  A closing bracket
directly after the opening one, or after the negation mark, is a member of the set. -/
def bracket? (cs : List Char) : Option (CharTest × List Char) :=
  let (negated, body) := match cs with
    | '!' :: rest => (true, rest)
    | '^' :: rest => (true, rest)
    | _ => (false, cs)
  let (first, rest) := match body with
    | ']' :: rest => ([']'], rest)
    | _ => ([], body)
  match rest.dropWhile (· != ']') with
  | ']' :: after =>
    some (.ranges negated (bracketRanges (first ++ rest.takeWhile (· != ']'))), after)
  | _ => none

theorem bracket?_length {cs rest : List Char} {t : CharTest} (h : bracket? cs = some (t, rest)) :
    rest.length < cs.length := by
  have tail_le : ∀ {l after : List Char}, l.dropWhile (· != ']') = ']' :: after →
      after.length < l.length := by
    intro l after hl
    have := (List.dropWhile_sublist (· != ']') (l := l)).length_le
    rw [hl] at this
    exact this
  unfold bracket? at h
  have aux : ∀ body : List Char, body.length ≤ cs.length →
      ∀ p : List Char × List Char,
        p = (match body with | ']' :: rest => ([']'], rest) | _ => ([], body)) →
        p.2.length ≤ cs.length := by
    intro body hb p hp
    subst hp
    split
    · simp only [List.length_cons] at hb
      simp only
      omega
    · exact hb
  split at h
  rename_i x negated body hx
  have hbody : body.length ≤ cs.length := by
    split at hx <;> cases hx <;> simp
  split at h
  rename_i y first r hy
  have hr : r.length ≤ cs.length := aux body hbody (first, r) hy.symm
  split at h
  · rename_i after hd
    cases h
    exact Nat.lt_of_lt_of_le (tail_le hd) hr
  · cases h

/-- The pieces of one name of a line: `*` and `?` stay within the name, a backslash takes the next
character as it is, and a bracket that is not closed stands for itself.  A backslash with no character
after it is refused. -/
def namePieces? (cs : List Char) : Option (List Piece) :=
  match cs with
  | [] => some []
  | ['\\'] => none
  | '\\' :: c :: rest => (namePieces? rest).map (.one (.exactly c) :: ·)
  | '*' :: rest => (namePieces? rest).map (.run .inName :: ·)
  | '?' :: rest => (namePieces? rest).map (.one .inName :: ·)
  | '[' :: rest =>
    match _h : bracket? rest with
    | some (t, after) => (namePieces? after).map (.one t :: ·)
    | none => (namePieces? rest).map (.one (.exactly '[') :: ·)
  | c :: rest => (namePieces? rest).map (.one (.exactly c) :: ·)
termination_by cs.length
decreasing_by
  all_goals simp_wf
  all_goals first
    | omega
    | have shorter := bracket?_length _h
      omega

/-- Has the piece a range that ends before it starts? -/
def Piece.isBackward : Piece → Bool
  | .one (.ranges _ rs) => rs.any fun r => r.2 < r.1
  | _ => false

/-! ## Compiling a line -/

/-- A compiled line: whether it selects or takes back, whether it fits from the start of the path
only, and its pieces. -/
structure IgnoreLine where
  selects : Bool
  anchored : Bool
  pieces : List Piece
  deriving DecidableEq, Repr

/-- Neighbouring `**` count as one. -/
def collapseStars : List (List Char) → List (List Char)
  | a :: b :: rest =>
    if a = ['*', '*'] ∧ b = ['*', '*'] then collapseStars (b :: rest)
    else a :: collapseStars (b :: rest)
  | segments => segments

/-- The pieces of the names of a line from one name on.  `first` says that no name came before, and
`slash` that a slash must come before the next name. -/
def segmentPieces? : (first slash : Bool) → List (List Char) → Option (List Piece)
  | _, _, [] => some []
  | first, slash, segment :: rest =>
    let lead : List Piece := if slash then [.one (.exactly '/')] else []
    if segment = ['*', '*'] then
      if first then (segmentPieces? false false rest).map (.foldersAbove :: ·)
      else if rest.isEmpty then some [.one (.exactly '/')]
      else (segmentPieces? false true rest).map (.somethingBelow :: ·)
    else
      let isStar : Bool := segment = ['*']
      let name := if isStar then some [.one .inName, .run .inName] else namePieces? segment
      let after :=
        if rest.isEmpty then some (if isStar then [.maybeSlash, .finish] else [.slashOrEnd])
        else segmentPieces? false true rest
      name.bind fun here => after.map fun below => lead ++ here ++ below

/-- The segments of a line, so that every line starts at the root: a line without a slash in front
of its last name applies below any folders, and a slash at the end stands for everything below. -/
def normalSegments (segments : List (List Char)) : List (List Char) :=
  let stars : List Char := ['*', '*']
  let rooted := match segments with
    | [] :: rest => rest
    | [s] => if s = stars then [s] else [stars, s]
    | [s, []] => if s = stars then [s, []] else [stars, s, []]
    | _ => segments
  collapseStars (if rooted.getLast? = some [] then rooted.dropLast ++ [stars] else rooted)

/-- A line that fits from the start of the path only, given by its segments. -/
def IgnoreLine.ofSegments (selects : Bool) (segments : List (List Char)) : Except BadLine IgnoreLine :=
  match segmentPieces? true false segments with
  | none => .error .malformed
  | some pieces =>
    if pieces.any Piece.isBackward then .error .backwardRange else .ok ⟨selects, true, pieces⟩

/-- Compiles a line; blank lines, comments and the slash alone select nothing. -/
def IgnoreLine.compile (line : String) : Except BadLine (Option IgnoreLine) :=
  let cs := line.toList
  let body := if [' ', '\\'].isPrefixOf cs.reverse then cs
    else Text.dropRightWhile Text.isBlank cs
  match body with
  | [] => .ok none
  | '#' :: _ => .ok none
  | ['/'] => .ok none
  | _ =>
    let (selects, pattern) := match body with
      | '!' :: rest => (false, rest)
      | _ => (true, body)
    let raw := Text.fields '/' pattern
    let isFolder := raw.getLast? = some []
    let stars : List Char := ['*', '*']
    match normalSegments raw with
    | [] => .error .malformed
    | [s] =>
      if s = stars then
        .ok (some ⟨selects, false, [if isFolder then .one (.exactly '/') else .one .any]⟩)
      else (ofSegments selects [s]).map some
    | segments =>
      if segments = [stars, ['*']] then .ok (some ⟨selects, false, [.one .any]⟩)
      else if segments = [stars, ['*'], stars] then .ok (some ⟨selects, false, [.one (.exactly '/')]⟩)
      else (ofSegments selects segments).map some

/-- Does the line fit the path? -/
def IgnoreLine.fits (l : IgnoreLine) (path : List Char) : Bool :=
  if l.anchored then fitsHere l.pieces path else fitsSomewhere l.pieces path

/-- Do the lines select the path?  The last line that fits it decides. -/
def IgnoreLine.select (lines : List IgnoreLine) (path : String) : Bool :=
  let cs := match path.toList with
    | '/' :: rest => rest
    | '.' :: '/' :: rest => rest
    | cs => cs
  match lines.reverse.find? (·.fits cs) with
  | some l => l.selects
  | none => false

/-- Compiles lines to rules, one after the other. -/
def compileIgnores : IgnoreCompiler := fun lines =>
  (lines.mapM IgnoreLine.compile).map fun compiled => ⟨IgnoreLine.select (compiled.filterMap id)⟩

end RouteScribe.Files
