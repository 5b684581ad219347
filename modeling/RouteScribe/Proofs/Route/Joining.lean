import RouteScribe.Proofs.Route.Segments
import RouteScribe.Proofs.Text.Fields

/-!
# Joined paths

The path of a folder and the path of a route are joined with one slash.  Neither has to be made of
segments in the sense of `Segment`: both may be any text, with slashes at either end or none, and the
folder may be missing.

A reader that takes a text apart at its slashes sees the two paths side by side
(`joinChars_additive`).  There are two of these, the segments of a path and its parameters.  The
template is no such reader, since it keeps the slashes; but it goes over a text segment by segment
(`templateOf_append_slash`), never takes a slash away and never adds one, and so it can be applied
before or after joining (`templateOf_joinChars`).
-/

namespace RouteScribe.Route

/-! ## What stands between slashes -/

/-- What stands between the slashes of a path, as far as it is not empty. -/
def segmentsOf (path : List Char) : List (List Char) :=
  (Text.fields '/' path).filter (· ≠ [])

/-- The segments of a route path. -/
def segments (path : String) : List String := (segmentsOf path.toList).map String.ofList

@[simp] lemma segmentsOf_nil : segmentsOf [] = [] := rfl

lemma segmentsOf_append_slash (before after : List Char) :
    segmentsOf (before ++ '/' :: after) = segmentsOf before ++ segmentsOf after := by
  rw [segmentsOf, Text.fields_append_separator, List.filter_append, segmentsOf, segmentsOf]

lemma paramsFrom_append_slash (before after : List Char) :
    paramsFrom none (before ++ '/' :: after) = paramsFrom none before ++ paramsFrom none after :=
  paramsFrom_append_end (by decide) (by decide) none before after

/-! ## Readers that take a path apart -/

section

variable {β : Type} {f : List Char → List β} (hnil : f [] = [])
  (hslash : ∀ before after, f (before ++ '/' :: after) = f before ++ f after)

include hnil hslash

lemma additive_cons_slash (path : List Char) : f ('/' :: path) = f path := by
  have h := hslash [] path
  rwa [hnil] at h

lemma additive_dropWhile (path : List Char) : f (path.dropWhile (· == '/')) = f path := by
  induction path with
  | nil => rfl
  | cons c path ih =>
    by_cases hc : c = '/'
    · rw [hc, additive_cons_slash hnil hslash]
      exact ih
    · rw [List.dropWhile_cons_of_neg (by simpa using hc)]

lemma additive_dropRightWhile (path : List Char) :
    f (Text.dropRightWhile (· == '/') path) = f path := by
  induction path using List.reverseRecOn with
  | nil => rfl
  | append_singleton path c ih =>
    by_cases hc : c = '/'
    · have hlast := hslash path []
      rw [hnil, List.append_nil] at hlast
      rw [hc, hlast, ← ih]
      simp [Text.dropRightWhile]
    · simp [Text.dropRightWhile, hc]

lemma additive_rooted (path : List Char) : f (rooted path) = f path := by
  unfold rooted
  split
  · rfl
  · exact additive_cons_slash hnil hslash path

/-- A reader that takes texts apart at their slashes finds in a joined path what it finds in the
folder, and then what it finds in the route. -/
theorem joinChars_additive (folder route : List Char) :
    f (joinChars folder route) = f folder ++ f route := by
  have hroute := additive_dropWhile hnil hslash route
  unfold joinChars
  split
  case isTrue hbare =>
    have hfolder : f folder = [] := by
      rcases hbare with rfl | rfl
      · exact hnil
      · rw [additive_cons_slash hnil hslash, hnil]
    rw [additive_rooted hnil hslash, hfolder, List.nil_append]
  case isFalse =>
    dsimp only
    split
    case h_1 hempty =>
      rw [hempty, hnil] at hroute
      rw [additive_dropRightWhile hnil hslash, ← hroute, List.append_nil]
    case h_2 =>
      rw [hslash, additive_dropRightWhile hnil hslash, hroute]

end

/-! ## Templates -/

lemma takeWhile_append_stop {p : Char → Bool} {d : Char} (hd : p d = false) (cs rest : List Char) :
    (cs ++ d :: rest).takeWhile p = cs.takeWhile p := by
  induction cs with
  | nil => simp [hd]
  | cons c cs ih => simp only [List.cons_append, List.takeWhile_cons, ih]

lemma dropWhile_append_stop {p : Char → Bool} {d : Char} (hd : p d = false) (cs rest : List Char) :
    (cs ++ d :: rest).dropWhile p = cs.dropWhile p ++ d :: rest := by
  induction cs with
  | nil => simp [hd]
  | cons c cs ih =>
    simp only [List.cons_append, List.dropWhile_cons, ih]
    split
    · rfl
    · rfl

/-- A constraint does not reach over a slash. -/
lemma dropConstraint_append_slash (cs rest : List Char) :
    dropConstraint (cs ++ '/' :: rest) = dropConstraint cs ++ '/' :: rest := by
  have hslash : ('/' != '/') = false := rfl
  unfold dropConstraint
  cases cs with
  | nil => rfl
  | cons c cs =>
    by_cases hc : c = '{'
    · subst hc
      simp only [List.cons_append, takeWhile_append_stop (p := (· != '/')) hslash,
        dropWhile_append_stop (p := (· != '/')) hslash]
      split
      · rw [List.append_assoc]
      · rfl
    · split
      · rename_i heq
        exact absurd (List.cons.inj heq).1 hc
      · split
        · rename_i heq
          exact absurd (List.cons.inj heq).1 hc
        · rfl

/-- The template of a path is made segment by segment. -/
lemma templateOf_append_slash (before after : List Char) :
    templateOf (before ++ '/' :: after) = templateOf before ++ '/' :: templateOf after := by
  have hslash : isNameChar '/' = false := by decide
  induction before using templateOf.induct with
  | case1 => rw [List.nil_append, templateOf_slash, templateOf, List.nil_append]
  | case2 c rest hparameter ih =>
    have hthere : c = ':' ∧ (rest ++ '/' :: after).takeWhile isNameChar ≠ [] := by
      rwa [takeWhile_append_stop hslash]
    rw [List.cons_append, templateOf, if_pos hthere, templateOf, if_pos hparameter,
      takeWhile_append_stop hslash, dropWhile_append_stop hslash, dropConstraint_append_slash, ih]
    simp
  | case3 c rest hplain ih =>
    have hthere : ¬(c = ':' ∧ (rest ++ '/' :: after).takeWhile isNameChar ≠ []) := by
      rwa [takeWhile_append_stop hslash]
    rw [List.cons_append, templateOf, if_neg hthere, templateOf, if_neg hplain, ih, List.cons_append]

/-- The template of a text starts with a slash if the text does. -/
lemma head?_templateOf (path : List Char) :
    (templateOf path).head? = some '/' ↔ path.head? = some '/' := by
  cases path with
  | nil => rw [templateOf]
  | cons c rest =>
    rw [templateOf]
    split
    case isTrue hparameter => simp [hparameter.1]
    case isFalse => simp

lemma templateOf_eq_nil {path : List Char} : templateOf path = [] ↔ path = [] := by
  cases path with
  | nil => rw [templateOf]
  | cons c rest =>
    rw [templateOf]
    split
    · simp
    · simp

lemma afterLastBrace?_isSuffix {cs rest : List Char} (h : afterLastBrace? cs = some rest) :
    rest <:+ cs := by
  induction cs generalizing rest with
  | nil => cases h
  | cons c cs ih =>
    rw [afterLastBrace?] at h
    split at h
    case h_1 hlater =>
      cases h
      exact (ih hlater).trans (List.suffix_cons c cs)
    case h_2 =>
      split at h
      · cases h
        exact List.suffix_cons c _
      · cases h

lemma dropConstraint_isSuffix (cs : List Char) : dropConstraint cs <:+ cs := by
  unfold dropConstraint
  split
  case h_1 rest =>
    split
    case h_1 tail htail =>
      obtain ⟨inside, hinside⟩ := afterLastBrace?_isSuffix htail
      refine ⟨'{' :: inside, ?_⟩
      rw [List.cons_append, ← List.append_assoc, hinside, List.takeWhile_append_dropWhile]
    case h_2 => exact List.suffix_rfl
  case h_2 => exact List.suffix_rfl

lemma getLast?_of_isSuffix {cs rest : List Char} (h : rest <:+ cs) (hne : rest ≠ []) :
    rest.getLast? = cs.getLast? := by
  obtain ⟨front, rfl⟩ := h
  rw [List.getLast?_append, Option.or_of_isSome (by simpa using hne)]

/-- The template of a text ends with a slash only if the text does. -/
lemma getLast?_templateOf {path : List Char} (h : path.getLast? ≠ some '/') :
    (templateOf path).getLast? ≠ some '/' := by
  induction path using templateOf.induct with
  | case1 => simp [templateOf]
  | case2 c rest hparameter ih =>
    rw [templateOf, if_pos hparameter]
    generalize hbehind : dropConstraint (rest.dropWhile isNameChar) = behind at ih ⊢
    by_cases hempty : behind = []
    · rw [hempty, templateOf, List.getLast?_append]
      simp
    · have hsuffix : behind <:+ c :: rest := by
        rw [← hbehind]
        exact ((dropConstraint_isSuffix _).trans (List.dropWhile_suffix _)).trans
          (List.suffix_cons c rest)
      have hlast := ih (by rwa [getLast?_of_isSuffix hsuffix hempty])
      have htemplate : templateOf behind <:+
          '{' :: rest.takeWhile isNameChar ++ '}' :: templateOf behind :=
        ⟨'{' :: rest.takeWhile isNameChar ++ ['}'], by simp⟩
      rwa [← getLast?_of_isSuffix htemplate (mt templateOf_eq_nil.1 hempty)]
  | case3 c rest hplain ih =>
    rw [templateOf, if_neg hplain]
    by_cases hempty : rest = []
    · subst hempty
      rwa [templateOf]
    · have hlast := ih (by rwa [getLast?_of_isSuffix (List.suffix_cons c rest) hempty])
      rwa [← getLast?_of_isSuffix (List.suffix_cons c _) (mt templateOf_eq_nil.1 hempty)]

lemma templateOf_dropWhile (path : List Char) :
    templateOf (path.dropWhile (· == '/')) = (templateOf path).dropWhile (· == '/') := by
  induction path with
  | nil => rw [List.dropWhile_nil, templateOf, List.dropWhile_nil]
  | cons c path ih =>
    by_cases hc : c = '/'
    · subst hc
      rw [templateOf_slash]
      exact ih
    · have hfirst : (templateOf (c :: path)).head? ≠ some '/' :=
        mt (head?_templateOf _).1 (by simpa using hc)
      rw [List.dropWhile_cons_of_neg (by simpa using hc)]
      cases htemplate : templateOf (c :: path) with
      | nil => rfl
      | cons d rest =>
        rw [htemplate] at hfirst
        rw [List.dropWhile_cons_of_neg (by simpa using hfirst)]

lemma dropRightWhile_of_getLast? {path : List Char} (h : path.getLast? ≠ some '/') :
    Text.dropRightWhile (· == '/') path = path := by
  induction path using List.reverseRecOn with
  | nil => rfl
  | append_singleton path c _ =>
    have hc : c ≠ '/' := by simpa using h
    simp [Text.dropRightWhile, hc]

lemma templateOf_dropRightWhile (path : List Char) :
    templateOf (Text.dropRightWhile (· == '/') path) =
      Text.dropRightWhile (· == '/') (templateOf path) := by
  induction path using List.reverseRecOn with
  | nil => simp [Text.dropRightWhile, templateOf]
  | append_singleton path c ih =>
    by_cases hc : c = '/'
    · have hdrop (cs : List Char) :
          Text.dropRightWhile (· == '/') (cs ++ ['/']) = Text.dropRightWhile (· == '/') cs := by
        simp [Text.dropRightWhile]
      rw [hc, templateOf_append_slash, hdrop, ih, templateOf, hdrop]
    · have hlast : (path ++ [c]).getLast? ≠ some '/' := by simpa using hc
      rw [dropRightWhile_of_getLast? hlast, dropRightWhile_of_getLast? (getLast?_templateOf hlast)]

lemma templateOf_rooted (path : List Char) : templateOf (rooted path) = rooted (templateOf path) := by
  unfold rooted
  by_cases hslash : path.head? = some '/'
  · rw [if_pos hslash, if_pos ((head?_templateOf path).2 hslash)]
  · rw [if_neg hslash, if_neg (mt (head?_templateOf path).1 hslash), templateOf_slash]

lemma templateOf_eq_slash {path : List Char} : templateOf path = ['/'] ↔ path = ['/'] := by
  constructor
  · intro h
    have hfirst : path.head? = some '/' := (head?_templateOf path).1 (by rw [h]; rfl)
    obtain ⟨rest, rfl⟩ := List.head?_eq_some_iff.1 hfirst
    rw [templateOf_slash, List.cons.injEq, templateOf_eq_nil] at h
    rw [h.2]
  · rintro rfl
    rw [templateOf_slash, templateOf]

/-- The template of a joined path is the join of the templates. -/
theorem templateOf_joinChars (folder route : List Char) :
    templateOf (joinChars folder route) = joinChars (templateOf folder) (templateOf route) := by
  unfold joinChars
  simp only [templateOf_eq_nil, templateOf_eq_slash, ← templateOf_dropWhile]
  split
  case isTrue => exact templateOf_rooted route
  case isFalse =>
    cases route.dropWhile (· == '/') with
    | nil => rw [templateOf, templateOf_dropRightWhile]
    | cons c tail =>
      cases htail : templateOf (c :: tail) with
      | nil => exact absurd (templateOf_eq_nil.1 htail) (by simp)
      | cons d rest => rw [templateOf_append_slash, templateOf_dropRightWhile, htail]

/-! ## Joining -/

lemma segments_join (folder : Option String) (route : String) :
    segments (join folder route) = segments (folder.getD "") ++ segments route := by
  rw [segments, join, String.toList_ofList,
    joinChars_additive segmentsOf_nil segmentsOf_append_slash, List.map_append, segments, segments]

lemma params_join (folder : Option String) (route : String) :
    params (join folder route) = params (folder.getD "") ++ params route := by
  rw [params, join, String.toList_ofList, joinChars_additive rfl paramsFrom_append_slash,
    List.map_append, params, params]

lemma template_join (folder : Option String) (route : String) :
    template (join folder route) = join (some (template (folder.getD ""))) (template route) := by
  rw [template, join, String.toList_ofList, templateOf_joinChars, join, Option.getD_some, template,
    template, String.toList_ofList, String.toList_ofList]

/-- **Joining is a homomorphism.**  The segments of a joined path are those of the folder followed by
those of the route, so are its parameters, and its template is the join of the two templates.  This
holds of all texts; a missing folder counts as the empty path. -/
theorem join_homomorphism (folder : Option String) (route : String) :
    segments (join folder route) = segments (folder.getD "") ++ segments route ∧
    params (join folder route) = params (folder.getD "") ++ params route ∧
    template (join folder route) = join (some (template (folder.getD ""))) (template route) :=
  ⟨segments_join folder route, params_join folder route, template_join folder route⟩

end RouteScribe.Route
