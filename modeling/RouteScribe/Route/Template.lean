import RouteScribe.Text.Blank
import RouteScribe.Text.Fields

/-!
# Route paths and path templates

A route path such as `/users/:id{[0-9]+}/posts` names its parameters with a colon, each possibly
followed by a constraint in braces.  A document writes the same path as the template
`/users/{id}/posts`.  Paths of folders and of routes are joined with one slash between them.
-/

namespace RouteScribe.Route

/-- The characters of a parameter name: ASCII letters, digits and the underscore. -/
def isNameChar (c : Char) : Bool :=
  ('a' ≤ c && c ≤ 'z') || ('A' ≤ c && c ≤ 'Z') || ('0' ≤ c && c ≤ '9') || c == '_'

/-! ## Parameters -/

/-- The parameter names of a path: after each colon the longest run of name characters, if there
is one.  `name` holds the run that is being read, in reverse. -/
def paramsFrom : Option (List Char) → List Char → List (List Char)
  | none, [] => []
  | some [], [] => []
  | some name, [] => [name.reverse]
  | none, c :: cs => if c == ':' then paramsFrom (some []) cs else paramsFrom none cs
  | some name, c :: cs =>
    if isNameChar c then paramsFrom (some (c :: name)) cs
    else
      let rest := if c == ':' then paramsFrom (some []) cs else paramsFrom none cs
      if name = [] then rest else name.reverse :: rest

/-- The names of the parameters of a route path, in order, repetitions included. -/
def params (path : String) : List String :=
  (paramsFrom none path.toList).map String.ofList

/-! ## Templates -/

/-- What follows the last closing brace, when there is one. -/
def afterLastBrace? : List Char → Option (List Char)
  | [] => none
  | c :: cs =>
    match afterLastBrace? cs with
    | some rest => some rest
    | none => if c == '}' then some cs else none

theorem afterLastBrace?_length {cs rest : List Char} (h : afterLastBrace? cs = some rest) :
    rest.length < cs.length := by
  induction cs generalizing rest with
  | nil => simp [afterLastBrace?] at h
  | cons c cs ih =>
    simp only [afterLastBrace?] at h
    cases hr : afterLastBrace? cs with
    | some r =>
      rw [hr] at h
      cases h
      exact Nat.lt_succ_of_lt (ih hr)
    | none =>
      rw [hr] at h
      by_cases hc : (c == '}') = true
      · rw [if_pos hc] at h
        cases h
        simp
      · rw [if_neg hc] at h
        cases h

/-- Drops the constraint that a parameter name may be followed by: it opens with a brace and ends
with the last closing brace of the same segment. -/
def dropConstraint (cs : List Char) : List Char :=
  match cs with
  | '{' :: rest =>
    match afterLastBrace? (rest.takeWhile (· != '/')) with
    | some tail => tail ++ rest.dropWhile (· != '/')
    | none => cs
  | _ => cs

theorem dropConstraint_length (cs : List Char) : (dropConstraint cs).length ≤ cs.length := by
  unfold dropConstraint
  split
  · rename_i rest
    split
    · rename_i tail h
      have h₁ := afterLastBrace?_length h
      have h₂ : (rest.takeWhile (· != '/')).length + (rest.dropWhile (· != '/')).length
          = rest.length := by
        rw [← List.length_append, List.takeWhile_append_dropWhile]
      simp only [List.length_append, List.length_cons]
      omega
    · exact Nat.le_refl _
  · exact Nat.le_refl _

/-- The template of a route path: every parameter in braces, without its constraint. -/
def templateOf (cs : List Char) : List Char :=
  match cs with
  | [] => []
  | c :: rest =>
    if c = ':' ∧ (rest.takeWhile isNameChar) ≠ [] then
      '{' :: rest.takeWhile isNameChar ++ '}' ::
        templateOf (dropConstraint (rest.dropWhile isNameChar))
    else c :: templateOf rest
termination_by cs.length
decreasing_by
  · have h₁ := dropConstraint_length (rest.dropWhile isNameChar)
    have h₂ := (List.dropWhile_sublist isNameChar (l := rest)).length_le
    simp only [List.length_cons]
    omega
  · simp

/-- The template under which a document lists a route path. -/
def template (path : String) : String :=
  String.ofList (templateOf path.toList)

/-! ## Joining -/

/-- A path that starts with a slash: the empty path is the slash alone. -/
def rooted (path : List Char) : List Char :=
  if path.head? = some '/' then path else '/' :: path

/-- Joins the path of a folder and the path of a route with one slash.  Under the empty path and
under the slash alone the route path is only given its leading slash. -/
def joinChars (folder route : List Char) : List Char :=
  if folder = [] ∨ folder = ['/'] then rooted route
  else
    let head := Text.dropRightWhile (· == '/') folder
    match route.dropWhile (· == '/') with
    | [] => head
    | tail => head ++ '/' :: tail

/-- Joins a folder path, if there is one, and a route path. -/
def join (folder : Option String) (route : String) : String :=
  String.ofList (joinChars (folder.getD "").toList route.toList)

end RouteScribe.Route
