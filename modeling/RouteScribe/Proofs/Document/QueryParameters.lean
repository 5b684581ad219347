import RouteScribe.Proofs.Document.PathParameters

/-!
# Query parameters

An operation declares the query parameters of all its records.  The first record with a name decides
what is said of it, so no name is declared twice, none is lost, and a parameter is marked as required
only if a record requires it.
-/

namespace RouteScribe.Document

open Route (Record)

/-- The flag that a value is. -/
def Value.flag? : Value → Option Bool
  | .flag b => some b
  | _ => none

/-- The names of the parameters that an operation marks as required in a place, in order. -/
def requiredParameterNames (place : String) (operation : Value) : List String :=
  (((operation.field? "parameters").map Value.items).getD []).filterMap fun p =>
    if (p.field? "in").bind Value.text? = some place ∧
        (p.field? "required").bind Value.flag? = some true then
      (p.field? "name").bind Value.text?
    else none

section

variable {seen : List (String × Place)} {ps : List Parameter}

/-- The parameters that come first are those with a name and a place that have not occurred. -/
lemma mem_keys_firstParameters {key : String × Place} :
    key ∈ (firstParameters seen ps).map (fun p => (p.name, p.place)) ↔
      key ∈ ps.map (fun p => (p.name, p.place)) ∧ key ∉ seen := by
  induction ps generalizing seen with
  | nil => simp [firstParameters]
  | cons p ps ih =>
    rw [firstParameters]
    by_cases hseen : (p.name, p.place) ∈ seen
    · rw [if_pos hseen, ih, List.map_cons, List.mem_cons]
      constructor
      · rintro ⟨hkey, hnew⟩
        exact ⟨.inr hkey, hnew⟩
      · rintro ⟨rfl | hkey, hnew⟩
        · exact absurd hseen hnew
        · exact ⟨hkey, hnew⟩
    · rw [if_neg hseen, List.map_cons, List.map_cons, List.mem_cons, List.mem_cons, ih, List.mem_cons]
      by_cases hkey : key = (p.name, p.place)
      · simp [hkey, hseen]
      · simp [hkey]

/-- No name occurs twice in one place. -/
lemma nodup_keys_firstParameters :
    ((firstParameters seen ps).map fun p => (p.name, p.place)).Nodup := by
  induction ps generalizing seen with
  | nil => exact List.nodup_nil
  | cons p ps ih =>
    rw [firstParameters]
    split
    · exact ih
    · rw [List.map_cons, List.nodup_cons, mem_keys_firstParameters]
      exact ⟨fun h => h.2 List.mem_cons_self, ih⟩

end

section

variable (group : List Record)

lemma requiredParameterNames_operation (place : Place) :
    requiredParameterNames place.name (operation group) =
      ((parameters group).filter fun p => p.place = place ∧ p.required = true).map (·.name) := by
  rw [requiredParameterNames, items_parameters]
  induction parameters group with
  | nil => rfl
  | cons p ps ih =>
    have hin : (p.toValue.field? "in").bind Value.text? = some p.place.name := rfl
    have hrequired : (p.toValue.field? "required").bind Value.flag? = some p.required := rfl
    have hname : (p.toValue.field? "name").bind Value.text? = some p.name := rfl
    have hplace : p.place.name = place.name ↔ p.place = place :=
      ⟨Place.name_injective, fun h => h ▸ rfl⟩
    rw [List.map_cons, List.filterMap_cons, ih, hin, hrequired, hname, List.filter_cons]
    simp only [Option.some.injEq, hplace]
    by_cases hmarked : p.place = place ∧ p.required = true
    · simp [hmarked]
    · simp [hmarked]

variable {group} {name : String}

/-- No query parameter is declared twice. -/
lemma nodup_queryNames : (parameterNames "query" (operation group)).Nodup := by
  rw [show ("query" : String) = Place.query.name from rfl, parameterNames_operation]
  have hkeys : (((parameters group).filter fun p => p.place = .query).map fun p =>
      (p.name, p.place)).Nodup :=
    nodup_keys_firstParameters.sublist (List.filter_sublist.map _)
  refine List.Nodup.map_on ?_ (List.Nodup.of_map _ hkeys)
  intro p hp q hq hname
  refine List.inj_on_of_nodup_map hkeys hp hq ?_
  have hplaces := (of_decide_eq_true (List.mem_filter.1 hp).2).trans
    (of_decide_eq_true (List.mem_filter.1 hq).2).symm
  rw [hname, hplaces]

/-- The parameters of the path and those of the query stand in different places. -/
lemma notMem_keys_of_path {ps : List Parameter} (name : String) (hpath : ∀ p ∈ ps, p.place = .path) :
    (name, Place.query) ∉ ps.map fun p => (p.name, p.place) := by
  intro h
  obtain ⟨p, hp, hkey⟩ := List.mem_map.1 h
  have hquery : p.place = .query := congrArg Prod.snd hkey
  rw [hpath p hp] at hquery
  cases hquery

/-- The query parameters of an operation are those of its records. -/
lemma mem_queryNames : name ∈ parameterNames "query" (operation group) ↔
    ∃ r ∈ group, ∃ q, r.query = some q ∧ name ∈ Table.names q.properties := by
  have hkey : name ∈ parameterNames "query" (operation group) ↔
      (name, Place.query) ∈ (parameters group).map fun p => (p.name, p.place) := by
    rw [show ("query" : String) = Place.query.name from rfl, parameterNames_operation]
    simp only [List.mem_map, List.mem_filter, Prod.mk.injEq, decide_eq_true_eq]
    constructor
    · rintro ⟨p, ⟨hp, hplace⟩, hname⟩
      exact ⟨p, hp, hname, hplace⟩
    · rintro ⟨p, hp, hname, hplace⟩
      exact ⟨p, ⟨hp, hplace⟩, hname⟩
  have hpath := notMem_keys_of_path name fun p => place_pathParameters group (p := p)
  rw [hkey, parameters, mem_keys_firstParameters, List.map_append, List.mem_append]
  constructor
  · rintro ⟨h | h, -⟩
    · exact absurd h hpath
    · obtain ⟨p, hp, hname⟩ := List.mem_map.1 h
      obtain ⟨r, hr, hp⟩ := List.mem_flatMap.1 hp
      unfold queryParameters at hp
      split at hp
      · rename_i q hq
        obtain ⟨e, he, rfl⟩ := List.mem_map.1 hp
        cases hname
        exact ⟨r, hr, q, hq, Table.mem_names_of_mem he⟩
      · cases hp
  · rintro ⟨r, hr, q, hq, hname⟩
    obtain ⟨e, he, rfl⟩ := List.mem_map.1 hname
    refine ⟨.inr (List.mem_map.2 ⟨⟨e.1, .query, q.required.contains e.1, e.2⟩, ?_, rfl⟩), by simp⟩
    refine List.mem_flatMap.2 ⟨r, hr, ?_⟩
    unfold queryParameters
    rw [hq]
    exact List.mem_map.2 ⟨e, he, rfl⟩

/-- A query parameter is marked as required only if a record requires it. -/
lemma exists_of_mem_requiredQueryNames
    (h : name ∈ requiredParameterNames "query" (operation group)) :
    ∃ r ∈ group, ∃ q, r.query = some q ∧ name ∈ q.required := by
  rw [show ("query" : String) = Place.query.name from rfl, requiredParameterNames_operation] at h
  obtain ⟨p, hp, rfl⟩ := List.mem_map.1 h
  obtain ⟨hp, hmarked⟩ := List.mem_filter.1 hp
  obtain ⟨hplace, hrequired⟩ := of_decide_eq_true hmarked
  rcases List.mem_append.1 (place_of_mem_firstParameters hp) with hpath | hquery
  · rw [place_pathParameters group hpath] at hplace
    cases hplace
  · obtain ⟨r, hr, hp⟩ := List.mem_flatMap.1 hquery
    unfold queryParameters at hp
    split at hp
    · rename_i q hq
      obtain ⟨e, -, rfl⟩ := List.mem_map.1 hp
      exact ⟨r, hr, q, hq, List.contains_iff_mem.1 hrequired⟩
    · cases hp

end

end RouteScribe.Document
