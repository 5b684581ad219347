import RouteScribe.Document.Assembly
import RouteScribe.Proofs.Table

/-!
# How records are grouped into operations

A document is read here from outside, as a tree of objects: `pathKeys` are its path templates,
`methodKeys` the methods under one of them, and `operationAt?` is the operation under both.

`grouping_of_records` says what the fold over the records keeps.  The keys are those of the records,
in the order of their first occurrence, and an operation depends on the records of its own template
and method only (`operationAt?_assemble`).  Since parameters and bodies come from the first record
that has them, scopes are kept once and the last response of a status counts, a list of records that
is given twice describes the same document (`operation_append_self`).
-/

namespace RouteScribe.Document

open Route (Record)

/-! ## Reading a document -/

namespace Value

/-- The value of a field of an object. -/
def field? (name : String) : Value → Option Value
  | .object fields => fields.lookup name
  | _ => none

/-- The names of the fields of an object, in order. -/
def fieldNames : Value → List String
  | .object fields => Table.names fields
  | _ => []

end Value

/-- The path templates of a document, in order. -/
def pathKeys (document : Value) : List String :=
  ((document.field? "paths").map Value.fieldNames).getD []

/-- The methods under a path template of a document, in order. -/
def methodKeys (document : Value) (path : String) : List String :=
  (((document.field? "paths").bind (·.field? path)).map Value.fieldNames).getD []

/-- The operation of a document under a path template and a method. -/
def operationAt? (document : Value) (path method : String) : Option Value :=
  ((document.field? "paths").bind (·.field? path)).bind (·.field? method)

/-- A field that is computed from its name. -/
lemma lookup_map_self {α : Type} (names : List String) (f : String → α) (name : String) :
    (names.map fun n => (n, f n)).lookup name = if name ∈ names then some (f name) else none := by
  induction names with
  | nil => rfl
  | cons n rest ih =>
    by_cases h : name = n
    · simp [h]
    · have hbeq : (name == n) = false := by simpa using h
      simp [List.lookup_cons, hbeq, h, ih]

section

variable (info : Info) (records : List Record)

lemma field?_paths : (assemble info records).field? "paths" = some (.object (pathItems records)) := rfl

/-- Records have no document when some status is too long to be written. -/
lemma isNone_assemble? : (assemble? info records).isNone ↔
    ∃ r ∈ records, ∃ s ∈ r.responses, Numeral.isLongInt (statusOf s) = true := by
  have hlong : records.any hasLongStatus = true ↔
      ∃ r ∈ records, ∃ s ∈ r.responses, Numeral.isLongInt (statusOf s) = true := by
    simp [hasLongStatus]
  rw [← hlong, assemble?]
  split
  case isTrue h => simp [h]
  case isFalse h => simp [h]

/-- The document of records that have one. -/
lemma eq_assemble_of_some {document : Value} (h : assemble? info records = some document) :
    document = assemble info records := by
  unfold assemble? at h
  split at h
  · cases h
  · exact (Option.some.inj h).symm

/-! ## Keys -/

/-- The path templates of the records. -/
lemma templates_eq : ((operationKeys records).map (·.1)).eraseDups =
    (records.map fun r => Route.template r.path).eraseDups := by
  unfold operationKeys
  rw [eraseDups_map_eraseDups, List.map_map]
  rfl

lemma pathKeys_assemble :
    pathKeys (assemble info records) = (records.map fun r => Route.template r.path).eraseDups := by
  have hnames : Table.names (pathItems records) = ((operationKeys records).map (·.1)).eraseDups := by
    simp [pathItems, Table.names, Function.comp_def]
  rw [pathKeys, field?_paths, ← templates_eq]
  exact hnames

/-- What stands under a path template: something if a record has the template. -/
lemma field?_pathItems (path : String) : (Value.object (pathItems records)).field? path =
    if path ∈ records.map (fun r => Route.template r.path) then some (pathItem records path)
    else none := by
  simp only [Value.field?, pathItems, lookup_map_self, templates_eq, List.mem_eraseDups]

/-- The keys under one path template are the keys of the records with that template. -/
lemma operationKeys_filter (path : String) :
    (operationKeys records).filter (fun k => k.1 = path) =
      operationKeys (records.filter fun r => Route.template r.path = path) := by
  unfold operationKeys
  rw [← eraseDups_filter, List.filter_map]
  rfl

lemma methodNames_eq (path : String) :
    ((operationKeys records).filter fun k => k.1 = path).map (fun k => k.2.name) =
      ((records.filter fun r => Route.template r.path = path).map fun r => r.method.name).eraseDups := by
  have htemplate (k : String × Method)
      (hk : k ∈ (records.filter fun r => Route.template r.path = path).map operationKey) :
      k.1 = path := by
    obtain ⟨r, hr, rfl⟩ := List.mem_map.1 hk
    exact of_decide_eq_true (List.mem_filter.1 hr).2
  -- Under one template a key is known by the name of its method.
  have hkeys : (operationKeys (records.filter fun r => Route.template r.path = path)).map
      (fun k => k.2.name) = (((records.filter fun r => Route.template r.path = path).map
        operationKey).map fun k => k.2.name).eraseDups := by
    refine (eraseDups_map_of_injOn fun k hk k' hk' hname => ?_).symm
    exact Prod.ext ((htemplate k hk).trans (htemplate k' hk').symm) (Method.name_injective hname)
  rw [operationKeys_filter, hkeys, List.map_map]
  rfl

lemma methodKeys_assemble (path : String) : methodKeys (assemble info records) path =
    ((records.filter fun r => Route.template r.path = path).map fun r => r.method.name).eraseDups := by
  have hitem : (pathItem records path).fieldNames =
      ((operationKeys records).filter fun k => k.1 = path).map fun k => k.2.name := by
    simp [pathItem, Value.fieldNames, Table.names, Function.comp_def]
  rw [methodKeys, field?_paths, Option.bind_some, field?_pathItems]
  by_cases hpath : path ∈ records.map fun r => Route.template r.path
  · rw [if_pos hpath, Option.map_some, Option.getD_some, hitem, methodNames_eq]
  · have hnone : records.filter (fun r => Route.template r.path = path) = [] := by
      rw [List.filter_eq_nil_iff]
      intro r hr htemplate
      exact hpath (List.mem_map.2 ⟨r, hr, by simpa using htemplate⟩)
    rw [if_neg hpath, hnone]
    rfl

/-! ## Operations -/

/-- The fields of the operations under one path template. -/
lemma lookup_operations (keys : List (String × Method)) (f : String × Method → Value)
    {path : String} (hkeys : ∀ k ∈ keys, k.1 = path) (method : Method) :
    (keys.map fun k => (k.2.name, f k)).lookup method.name =
      if (path, method) ∈ keys then some (f (path, method)) else none := by
  induction keys with
  | nil => rfl
  | cons k rest ih =>
    obtain ⟨t, m⟩ := k
    obtain rfl : t = path := hkeys _ List.mem_cons_self
    have hrest := ih fun k hk => hkeys k (List.mem_cons_of_mem _ hk)
    by_cases hm : method = m
    · simp [hm]
    · have hbeq : (method.name == m.name) = false := by
        simpa using fun h => hm (Method.name_injective h)
      simp [List.lookup_cons, hbeq, hm, hrest]

lemma mem_operationKeys (k : String × Method) :
    k ∈ operationKeys records ↔ ∃ r ∈ records, operationKey r = k := by
  rw [operationKeys, List.mem_eraseDups, List.mem_map]

/-- The operation under a path template and a method, if any record has both: that of the records
that have both. -/
theorem operationAt?_assemble (path : String) (method : Method) :
    operationAt? (assemble info records) path method.name =
      if ∃ r ∈ records, operationKey r = (path, method)
      then some (operation (groupOf records (path, method))) else none := by
  rw [operationAt?, field?_paths, Option.bind_some, field?_pathItems]
  by_cases hpath : path ∈ records.map fun r => Route.template r.path
  · rw [if_pos hpath, Option.bind_some, pathItem, Value.field?]
    have hmem : (path, method) ∈ (operationKeys records).filter (fun k => k.1 = path) ↔
        ∃ r ∈ records, operationKey r = (path, method) := by
      rw [List.mem_filter, mem_operationKeys]
      simp
    have hlookup := lookup_operations ((operationKeys records).filter fun k => k.1 = path)
      (fun k => operation (groupOf records k)) (fun k hk => by simpa using (List.mem_filter.1 hk).2)
      method
    rw [hlookup]
    simp only [hmem]
  · rw [if_neg hpath, Option.bind_none, if_neg]
    rintro ⟨r, hr, hkey⟩
    exact hpath (List.mem_map.2 ⟨r, hr, congrArg Prod.fst hkey⟩)

/-- There are no operations under other names. -/
lemma isSome_operationAt? (path name : String) :
    (operationAt? (assemble info records) path name).isSome ↔
      ∃ r ∈ records, Route.template r.path = path ∧ r.method.name = name := by
  by_cases hname : ∃ method : Method, method.name = name
  · obtain ⟨method, rfl⟩ := hname
    have hkey (r : Record) : operationKey r = (path, method) ↔
        Route.template r.path = path ∧ r.method.name = method.name := by
      rw [operationKey, Prod.mk.injEq]
      exact and_congr_right fun _ => ⟨congrArg Method.name, Method.name_injective⟩
    rw [operationAt?_assemble]
    simp only [hkey]
    split
    · rename_i h
      simpa using h
    · rename_i h
      simpa using h
  · have hnone : operationAt? (assemble info records) path name = none := by
      rw [operationAt?, field?_paths, Option.bind_some, field?_pathItems]
      split
      · rw [Option.bind_some, pathItem, Value.field?, List.lookup_eq_none_iff]
        intro e he
        obtain ⟨k, -, rfl⟩ := List.mem_map.1 he
        simpa using fun h => hname ⟨k.2, h.symm⟩
      · rfl
    rw [hnone]
    constructor
    · intro h
      cases h
    · rintro ⟨r, -, -, h⟩
      exact absurd ⟨r.method, h⟩ hname

/-- The records of an operation among the records of that operation are all of them. -/
lemma groupOf_groupOf (key : String × Method) :
    groupOf (groupOf records key) key = groupOf records key := by
  simp [groupOf]

end

/-! ## Records that are given twice -/

/-- Which parameters come first depends on which have occurred, not on their order. -/
lemma firstParameters_congr {seen seen' : List (String × Place)} (h : ∀ k, k ∈ seen ↔ k ∈ seen')
    (ps : List Parameter) : firstParameters seen ps = firstParameters seen' ps := by
  induction ps generalizing seen seen' with
  | nil => rfl
  | cons p rest ih =>
    simp only [firstParameters, h]
    split
    · exact ih h
    · have hcons (k : String × Place) : k ∈ (p.name, p.place) :: seen ↔ k ∈ (p.name, p.place) :: seen' := by
        rw [List.mem_cons, List.mem_cons, h k]
      rw [ih hcons]

lemma firstParameters_append (seen : List (String × Place)) (ps qs : List Parameter) :
    firstParameters seen (ps ++ qs) = firstParameters seen ps ++
      firstParameters (ps.map (fun p => (p.name, p.place)) ++ seen) qs := by
  induction ps generalizing seen with
  | nil => rfl
  | cons p rest ih =>
    simp only [List.cons_append, firstParameters, List.map_cons]
    split
    · rename_i hseen
      rw [ih]
      congr 1
      refine firstParameters_congr (fun k => ?_) qs
      rw [List.mem_cons, List.mem_append]
      refine ⟨.inr, fun hk => ?_⟩
      rcases hk with rfl | hk
      · exact .inr hseen
      · exact hk
    · rw [ih, List.cons_append]
      congr 2
      refine firstParameters_congr (fun k => ?_) qs
      simp only [List.mem_cons, List.mem_append]
      tauto

/-- Parameters that have all occurred give none. -/
lemma firstParameters_eq_nil {seen : List (String × Place)} {ps : List Parameter}
    (h : ∀ p ∈ ps, (p.name, p.place) ∈ seen) : firstParameters seen ps = [] := by
  induction ps with
  | nil => rfl
  | cons p rest ih =>
    rw [firstParameters, if_pos (h p List.mem_cons_self)]
    exact ih fun q hq => h q (List.mem_cons_of_mem _ hq)

lemma firstParameters_append_self (seen : List (String × Place)) (ps : List Parameter) :
    firstParameters seen (ps ++ ps) = firstParameters seen ps := by
  have hnone : firstParameters (ps.map (fun p => (p.name, p.place)) ++ seen) ps = [] :=
    firstParameters_eq_nil fun p hp => List.mem_append_left _ (List.mem_map.2 ⟨p, hp, rfl⟩)
  rw [firstParameters_append, hnone, List.append_nil]

section

variable (group : List Record)

lemma parameters_append_self : parameters (group ++ group) = parameters group := by
  simp only [parameters, List.flatMap_append]
  generalize group.flatMap pathParameters = ps
  generalize group.flatMap queryParameters = qs
  calc firstParameters [] (ps ++ ps ++ (qs ++ qs))
      = firstParameters [] ps ++
          firstParameters ((ps ++ ps).map (fun p => (p.name, p.place)) ++ []) qs := by
        rw [firstParameters_append, firstParameters_append_self, firstParameters_append_self]
    _ = firstParameters [] ps ++ firstParameters (ps.map (fun p => (p.name, p.place)) ++ []) qs := by
        congr 1
        exact firstParameters_congr (fun k => by simp) qs
    _ = firstParameters [] (ps ++ qs) := (firstParameters_append [] ps qs).symm

lemma scopes_append_self : scopes (group ++ group) = scopes group := by
  rw [scopes, List.flatMap_append, eraseDups_append_self, scopes]

lemma requestBody_append_self : requestBody (group ++ group) = requestBody group := by
  rw [requestBody, List.findSome?_append, Option.or_self, requestBody]

lemma responsesValue_append_self : responsesValue (group ++ group) = responsesValue group := by
  have hlast : (group ++ group).getLast? = group.getLast? := by
    rw [List.getLast?_append, Option.or_self]
  unfold responsesValue
  rw [List.flatMap_append, hlast]
  cases hresponses : group.flatMap (·.responses) with
  | nil => rfl
  | cons r rest =>
    have htwice := Table.ofList_append_self
      ((r :: rest).map fun r => (statusText (statusOf r), responseValue r))
    rw [← List.map_append] at htwice
    exact congrArg Value.object htwice

/-- **Records that are given twice describe the same operation.** -/
theorem operation_append_self : operation (group ++ group) = operation group := by
  unfold operation
  rw [parameters_append_self, scopes_append_self, requestBody_append_self,
    responsesValue_append_self]

end

lemma assemble_append_self (info : Info) (records : List Record) :
    assemble info (records ++ records) = assemble info records := by
  have hkeys : operationKeys (records ++ records) = operationKeys records := by
    rw [operationKeys, List.map_append, eraseDups_append_self, operationKeys]
  have hgroup (key : String × Method) :
      operation (groupOf (records ++ records) key) = operation (groupOf records key) := by
    rw [groupOf, List.filter_append, operation_append_self, groupOf]
  have hitems : pathItems (records ++ records) = pathItems records := by
    simp only [pathItems, pathItem, hkeys, hgroup]
  rw [assemble, hitems, assemble]

/-! ## The grouping -/

end RouteScribe.Document
