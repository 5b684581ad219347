import RouteScribe.Proofs.Document.Grouping
import RouteScribe.Proofs.Route.Segments

/-!
# Path templates and path parameters

An operation declares the parameters of its path, and its template names them in braces.  Both are
read off the route paths of the records, but by two readers, and only one of them knows about
constraints: the parameters of an operation are all names that follow a colon, inside a constraint
too.

`pathParameters_agree_iff` says when the two agree: exactly when every name that follows a colon
inside a constraint is a parameter of the same path.  `pathParameters_disagree` is a path with a
group that does not capture, `(?:a|b)`, in its constraint; the operation then declares a parameter
`a` that its template does not have.
-/

namespace RouteScribe.Document

open Route (Record Segment IsName BracedIn pathChars)

/-- What holds of all characters of a text is decided along the text. -/
local instance (priority := high) decidableForallMem {P : Char → Prop} [DecidablePred P]
    (cs : List Char) : Decidable (∀ c ∈ cs, P c) :=
  List.decidableBAll P cs

/-! ## The parameters of an operation -/

namespace Value

/-- The text that a value is. -/
def text? : Value → Option String
  | .text s => some s
  | _ => none

/-- The items of a list. -/
def items : Value → List Value
  | .list vs => vs
  | _ => []

end Value

/-- The names of the parameters that an operation declares in a place, in order. -/
def parameterNames (place : String) (operation : Value) : List String :=
  (((operation.field? "parameters").map Value.items).getD []).filterMap fun p =>
    if (p.field? "in").bind Value.text? = some place then (p.field? "name").bind Value.text? else none

lemma Place.name_injective {p q : Place} (h : p.name = q.name) : p = q := by
  cases p <;> cases q <;> first | rfl | exact absurd h (by decide)

section

variable (group : List Record)

/-- The parameters stand in an operation in their order. -/
lemma items_parameters : (((operation group).field? "parameters").map Value.items).getD [] =
    (parameters group).map Parameter.toValue := by
  unfold operation
  cases parameters group with
  | nil => cases scopes group <;> cases requestBody group <;> rfl
  | cons p ps => rfl

lemma parameterNames_operation (place : Place) : parameterNames place.name (operation group) =
    ((parameters group).filter fun p => p.place = place).map (·.name) := by
  rw [parameterNames, items_parameters]
  generalize parameters group = ps
  induction ps with
  | nil => rfl
  | cons p ps ih =>
    have hin : (p.toValue.field? "in").bind Value.text? = some p.place.name := rfl
    have hname : (p.toValue.field? "name").bind Value.text? = some p.name := rfl
    rw [List.map_cons, List.filterMap_cons, ih, hin, hname, List.filter_cons]
    by_cases hplace : p.place = place
    · simp [hplace]
    · have hne : some p.place.name ≠ some place.name := fun h =>
        hplace (Place.name_injective (Option.some.inj h))
      simp [hplace, hne]

/-- The parameters of one place are those that come first by their names. -/
lemma names_firstParameters {place : Place} {ps : List Parameter} (h : ∀ p ∈ ps, p.place = place) :
    (firstParameters [] ps).map (·.name) = (ps.map (·.name)).eraseDups := by
  induction ps using List.reverseRecOn with
  | nil => rfl
  | append_singleton ps p ih =>
    have hkey : (p.name, p.place) ∈ ps.map (fun q => (q.name, q.place)) ↔ p.name ∈ ps.map (·.name) := by
      simp only [List.mem_map, Prod.mk.injEq]
      constructor
      · rintro ⟨q, hq, hname, -⟩
        exact ⟨q, hq, hname⟩
      · rintro ⟨q, hq, hname⟩
        exact ⟨q, hq, hname, (h q (by simp [hq])).trans (h p (by simp)).symm⟩
    have hlast := ih fun q hq => h q (by simp [hq])
    rw [firstParameters_append, List.map_append, hlast, List.map_append, List.map_singleton,
      eraseDups_concat, List.append_nil, firstParameters]
    simp only [hkey]
    split
    · simp [firstParameters]
    · simp [firstParameters]

lemma place_of_mem_firstParameters {seen : List (String × Place)} {ps : List Parameter}
    {p : Parameter} (h : p ∈ firstParameters seen ps) : p ∈ ps := by
  induction ps generalizing seen with
  | nil => cases h
  | cons q ps ih =>
    rw [firstParameters] at h
    split at h
    · exact List.mem_cons_of_mem _ (ih h)
    · rcases List.mem_cons.1 h with rfl | h
      · exact List.mem_cons_self
      · exact List.mem_cons_of_mem _ (ih h)

lemma place_pathParameters {p : Parameter} (h : p ∈ group.flatMap pathParameters) :
    p.place = .path := by
  obtain ⟨r, -, hp⟩ := List.mem_flatMap.1 h
  obtain ⟨name, -, rfl⟩ := List.mem_map.1 hp
  rfl

lemma place_queryParameters {p : Parameter} (h : p ∈ group.flatMap queryParameters) :
    p.place = .query := by
  obtain ⟨r, -, hp⟩ := List.mem_flatMap.1 h
  unfold queryParameters at hp
  split at hp
  · obtain ⟨entry, -, rfl⟩ := List.mem_map.1 hp
    rfl
  · cases hp

/-- The path parameters that an operation declares: those that its records list, or else those of
their paths, each once. -/
theorem pathNames_operation : parameterNames "path" (operation group) =
    (group.flatMap fun r => if r.params.isEmpty then Route.params r.path else r.params).eraseDups := by
  have hpath : (firstParameters [] (group.flatMap pathParameters)).filter (fun p => p.place = .path) =
      firstParameters [] (group.flatMap pathParameters) := by
    rw [List.filter_eq_self]
    intro p hp
    simpa using place_pathParameters group (place_of_mem_firstParameters hp)
  have hquery (seen : List (String × Place)) :
      (firstParameters seen (group.flatMap queryParameters)).filter (fun p => p.place = .path) = [] := by
    rw [List.filter_eq_nil_iff]
    intro p hp
    simp [place_queryParameters group (place_of_mem_firstParameters hp)]
  have hnames : (group.flatMap pathParameters).map (·.name) =
      group.flatMap fun r => if r.params.isEmpty then Route.params r.path else r.params := by
    simp [List.map_flatMap, pathParameters, Function.comp_def]
  calc parameterNames "path" (operation group)
      = ((parameters group).filter fun p => p.place = .path).map (·.name) :=
        parameterNames_operation group .path
    _ = (firstParameters [] (group.flatMap pathParameters)).map (·.name) := by
        rw [parameters, firstParameters_append, List.filter_append, hpath, hquery, List.append_nil]
    _ = (group.flatMap fun r => if r.params.isEmpty then Route.params r.path else r.params).eraseDups := by
        rw [names_firstParameters fun p hp => place_pathParameters group hp, hnames]

lemma mem_pathNames_operation (h : ∀ r ∈ group, r.params = Route.params r.path) (name : String) :
    name ∈ parameterNames "path" (operation group) ↔ ∃ r ∈ group, name ∈ Route.params r.path := by
  rw [pathNames_operation, List.mem_eraseDups, List.mem_flatMap]
  refine exists_congr fun r => and_congr_right fun hr => ?_
  rw [h r hr, ite_self]

end

/-! ## Agreement -/

/-- A name that stands in braces in a path template. -/
def NamedIn (name path : String) : Prop := IsName name.toList ∧ BracedIn name.toList path.toList

/-- The operations of a document declare as path parameters exactly the names in their path
templates, each once. -/
def PathParametersAgree (document : Value) : Prop :=
  ∀ path method operation, operationAt? document path method = some operation →
    (parameterNames "path" operation).Nodup ∧
      ∀ name, name ∈ parameterNames "path" operation ↔ NamedIn name path

section

variable {r : Record} {segments : List Segment}

lemma mem_params_iff (h : r.path.toList = pathChars segments) (name : String) :
    name ∈ Route.params r.path ↔
      name.toList ∈ segments.flatMap Segment.names ∨ name.toList ∈ segments.flatMap Segment.hiddenNames := by
  have hread : name ∈ Route.params r.path ↔ name.toList ∈ Route.paramsFrom none r.path.toList := by
    rw [Route.params, List.mem_map]
    constructor
    · rintro ⟨cs, hcs, rfl⟩
      rwa [String.toList_ofList]
    · intro hname
      exact ⟨name.toList, hname, String.ofList_toList⟩
  rw [hread, h, Route.paramsFrom_pathChars]
  simp only [List.mem_flatMap, List.mem_append]
  constructor
  · rintro ⟨s, hs, hname | hname⟩
    · exact .inl ⟨s, hs, hname⟩
    · exact .inr ⟨s, hs, hname⟩
  · rintro (⟨s, hs, hname⟩ | ⟨s, hs, hname⟩)
    · exact ⟨s, hs, .inl hname⟩
    · exact ⟨s, hs, .inr hname⟩

lemma isName_of_mem_params {path name : String} (h : name ∈ Route.params path) : IsName name.toList := by
  obtain ⟨cs, hcs, rfl⟩ := List.mem_map.1 h
  rw [String.toList_ofList]
  exact Route.isName_of_mem_paramsFrom (by simp) hcs

lemma namedIn_template_iff (h : r.path.toList = pathChars segments) (name : String) :
    NamedIn name (Route.template r.path) ↔
      IsName name.toList ∧ name.toList ∈ segments.flatMap Segment.names := by
  refine and_congr_right fun hname => ?_
  rw [Route.template, String.toList_ofList, h, Route.bracedIn_template_iff hname]

end

/-- **Path templates and path parameters agree exactly when constraints hide no other names**: every
name that follows a colon inside a constraint is a parameter of the same path.  This is so for all
lists of records that hold the parameters of their paths and whose paths are made of segments, under
every grouping of the records into operations. -/
theorem pathParameters_agree_iff (info : Info) (records : List Record)
    (segments : Record → List Segment) (hparams : ∀ r ∈ records, r.params = Route.params r.path)
    (hpath : ∀ r ∈ records, r.path.toList = pathChars (segments r)) :
    PathParametersAgree (assemble info records) ↔
      ∀ r ∈ records, (segments r).flatMap Segment.hiddenNames ⊆ (segments r).flatMap Segment.names := by
  constructor
  · intro hagree r hr name hname
    have hexists : ∃ r' ∈ records, operationKey r' = (Route.template r.path, r.method) := ⟨r, hr, rfl⟩
    have hoperation := operationAt?_assemble info records (Route.template r.path) r.method
    rw [if_pos hexists] at hoperation
    -- The name is declared by the operation of the record, so it stands in the template.
    have hgroup : ∀ r' ∈ groupOf records (Route.template r.path, r.method),
        r'.params = Route.params r'.path := fun r' hr' => hparams r' (List.mem_of_mem_filter hr')
    have hread : String.ofList name ∈ Route.params r.path := by
      rw [mem_params_iff (hpath r hr), String.toList_ofList]
      exact .inr hname
    have hdeclared : String.ofList name ∈ parameterNames "path"
        (operation (groupOf records (Route.template r.path, r.method))) := by
      rw [mem_pathNames_operation _ hgroup]
      exact ⟨r, by simp [groupOf, hr, operationKey], hread⟩
    have hnamed := ((hagree _ _ _ hoperation).2 _).1 hdeclared
    rw [namedIn_template_iff (hpath r hr), String.toList_ofList] at hnamed
    exact hnamed.2
  · intro hhidden path method op hop
    obtain ⟨first, hfirst, hkey, hmethod⟩ :=
      (isSome_operationAt? info records path method).1 (by rw [hop]; rfl)
    have hoperation := operationAt?_assemble info records path first.method
    rw [if_pos ⟨first, hfirst, by rw [operationKey, hkey]⟩, hmethod, hop] at hoperation
    obtain rfl := Option.some.inj hoperation
    have hgroup : ∀ r ∈ groupOf records (path, first.method), r.params = Route.params r.path :=
      fun r hr => hparams r (List.mem_of_mem_filter hr)
    refine ⟨by rw [pathNames_operation]; exact nodup_eraseDups _, fun name => ?_⟩
    rw [mem_pathNames_operation _ hgroup]
    constructor
    · rintro ⟨r, hr, hname⟩
      have hr' := List.mem_of_mem_filter hr
      have htemplate : Route.template r.path = path :=
        congrArg Prod.fst (of_decide_eq_true (List.mem_filter.1 hr).2)
      rw [← htemplate, namedIn_template_iff (hpath r hr')]
      refine ⟨isName_of_mem_params hname, ?_⟩
      rcases (mem_params_iff (hpath r hr') name).1 hname with hown | hinside
      · exact hown
      · exact hhidden r hr' hinside
    · intro hnamed
      rw [← hkey, namedIn_template_iff (hpath first hfirst)] at hnamed
      refine ⟨first, ?_, (mem_params_iff (hpath first hfirst) name).2 (.inl hnamed.2)⟩
      simp [groupOf, hfirst, operationKey, hkey]

/-- The segments of `/users/:id{[0-9]{3}}`: the constraint holds braces of its own. -/
def bracedSegments : List Segment :=
  [.plain [] (by simp), .plain "users".toList (by decide),
    .parameter "id".toList (some "[0-9]\x7b3\x7d".toList) (by decide) (by decide)]

theorem pathParameters_agree_braced :
    let r := Record.bare .get "/users/:id\x7b[0-9]\x7b3\x7d\x7d" ["id"]
    r.params = Route.params r.path ∧ r.path.toList = pathChars bracedSegments ∧
      PathParametersAgree (assemble defaultInfo [r, r]) := by
  intro r
  have hparams : r.params = Route.params r.path := by decide
  have hpath : r.path.toList = pathChars bracedSegments := by decide
  refine ⟨hparams, hpath, (pathParameters_agree_iff defaultInfo [r, r] (fun _ => bracedSegments)
    (by simp [hparams]) (by simp [hpath])).2 fun _ _ => ?_⟩
  decide

/-- The segments of `/:id{(?:a|b)}`. -/
def alternativeSegments : List Segment :=
  [.plain [] (by simp), .parameter "id".toList (some "(?:a|b)".toList) (by decide) (by decide)]

/-- **A constraint whose colon is taken for that of a parameter**: the operation declares `a`, and the
template does not name it. -/
theorem pathParameters_disagree :
    let path := "/:id\x7b(?:a|b)\x7d"
    let r := Record.bare .get path (Route.params path)
    path.toList = pathChars alternativeSegments ∧
      (operationAt? (assemble defaultInfo [r]) "/\x7bid\x7d" "get").map (parameterNames "path") =
        some ["id", "a"] ∧
      ¬NamedIn "a" "/\x7bid\x7d" ∧ ¬PathParametersAgree (assemble defaultInfo [r]) := by
  intro path r
  have hpath : path.toList = pathChars alternativeSegments := by decide
  have htemplate : Route.template path = "/\x7bid\x7d" := by
    rw [Route.template, hpath, Route.templateOf_pathChars]
    decide
  have hgroup : groupOf [r] ("/\x7bid\x7d", .get) = [r] := by
    have hkey : operationKey r = ("/\x7bid\x7d", Method.get) := by
      rw [operationKey]
      exact congrArg (·, Method.get) htemplate
    simp [groupOf, hkey]
  have hoperation := operationAt?_assemble defaultInfo [r] "/\x7bid\x7d" .get
  rw [if_pos ⟨r, by simp, by rw [operationKey]; exact congrArg (·, Method.get) htemplate⟩, hgroup] at hoperation
  have hnames : parameterNames "path" (operation [r]) = ["id", "a"] := by
    rw [pathNames_operation]
    decide
  have hnamed : ¬NamedIn "a" "/\x7bid\x7d" := by
    rw [← htemplate, show path = r.path from rfl, namedIn_template_iff hpath]
    decide
  refine ⟨hpath, ?_, hnamed, fun hagree => hnamed ?_⟩
  · rw [show ("get" : String) = Method.get.name from rfl, hoperation, Option.map_some, hnames]
  · refine ((hagree _ _ _ hoperation).2 "a").1 ?_
    rw [hnames]
    decide

end RouteScribe.Document
