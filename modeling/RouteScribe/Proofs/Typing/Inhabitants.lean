import RouteScribe.Proofs.Schema.Meaning
import RouteScribe.Proofs.Typing.Unfolding

/-!
# The values of a type and of its schema

`Inhabits` reads the types of a graph as sets of JSON values.  It knows nothing about schemas or how
they are made: it follows the references of the graph wherever they lead, as far as the value goes.

The main result, `exists_schema_of_inhabitants`, compares it with what the schema of a type admits
(`Schema.Admits`).  The schema admits every value of the type, and if no node of it is unparsed it
admits no others.  Both directions follow an unfolding of the type: where the unfolding stops at a
reference, the schema has an unparsed node, which admits everything.
-/

namespace RouteScribe.Typing

open Filter

/-- The values of a type of a graph. -/
inductive Inhabits (g : TypeGraph) : Ty → JsonValue → Prop
  /-- Types of one primitive kind hold all values of the kind. -/
  | kind {t : Ty} {kind : PrimitiveKind} {v : JsonValue} : t.kind? = some kind → kind.Holds v →
    Inhabits g t v
  | array {element : Ty} {vs : List JsonValue} : (∀ v ∈ vs, Inhabits g element v) →
    Inhabits g (.array element) (.array vs)
  /-- The elements of a tuple belong to the union of its types, whatever their number. -/
  | tuple {elements : List Ty} {element : Ty} {vs : List JsonValue} : g.IsUnion elements element →
    (∀ v ∈ vs, Inhabits g element v) → Inhabits g (.tuple elements) (.array vs)
  | map {value : Ty} {fields : List (String × JsonValue)} :
    (∀ name v, (name, v) ∈ fields → Inhabits g value v) → Inhabits g (.map value) (.object fields)
  /-- The properties that are not optional are present, and what is present belongs to the last
  property of its name. -/
  | object {id : Nat} {fields : List (String × JsonValue)} :
    (∀ p ∈ g.properties id, p.optional = false → p.name ∈ Table.names fields) →
    (∀ name v p, (name, v) ∈ fields → (g.properties id).reverse.find? (·.name == name) = some p →
      Inhabits g p.type v) →
    Inhabits g (.object id) (.object fields)
  | union {members : List Ty} {m : Ty} {v : JsonValue} : m ∈ members → Inhabits g m v →
    Inhabits g (.union members) v
  /-- A type about which nothing is known holds every value. -/
  | isOpaque {t : Ty} {v : JsonValue} : t.isOpaque = true → Inhabits g t v

/-! ## One level -/

section

variable {g : TypeGraph} {t : Ty} {v : JsonValue}

lemma kind?_of_isOpaque (h : t.isOpaque = true) : t.kind? = none := by
  cases t with
  | primitive p => cases p <;> first | rfl | cases h
  | _ => first | rfl | cases h

lemma inhabits_kind_iff {kind : PrimitiveKind} (h : t.kind? = some kind) :
    Inhabits g t v ↔ kind.Holds v := by
  constructor
  · intro hv
    cases hv with
    | kind h' hv =>
      obtain rfl : kind = _ := Option.some.inj (h.symm.trans h')
      exact hv
    | isOpaque h' => exact absurd h (by simp [kind?_of_isOpaque h'])
    | _ => cases h
  · exact .kind h

lemma inhabits_array_iff {element : Ty} :
    Inhabits g (.array element) v ↔ ∃ vs, v = .array vs ∧ ∀ x ∈ vs, Inhabits g element x := by
  constructor
  · intro hv
    cases hv with
    | kind h _ => cases h
    | array h => exact ⟨_, rfl, h⟩
    | isOpaque h => cases h
  · rintro ⟨vs, rfl, h⟩
    exact .array h

lemma inhabits_tuple_iff {elements : List Ty} {element : Ty} (helement : g.IsUnion elements element) :
    Inhabits g (.tuple elements) v ↔ ∃ vs, v = .array vs ∧ ∀ x ∈ vs, Inhabits g element x := by
  constructor
  · intro hv
    cases hv with
    | kind h _ => cases h
    | tuple h hvs => exact ⟨_, rfl, h.unique helement ▸ hvs⟩
    | isOpaque h => cases h
  · rintro ⟨vs, rfl, h⟩
    exact .tuple helement h

lemma inhabits_map_iff {value : Ty} :
    Inhabits g (.map value) v ↔
      ∃ fields, v = .object fields ∧ ∀ name x, (name, x) ∈ fields → Inhabits g value x := by
  constructor
  · intro hv
    cases hv with
    | kind h _ => cases h
    | map h => exact ⟨_, rfl, h⟩
    | isOpaque h => cases h
  · rintro ⟨fields, rfl, h⟩
    exact .map h

lemma inhabits_object_iff {id : Nat} :
    Inhabits g (.object id) v ↔ ∃ fields, v = .object fields ∧
      (∀ p ∈ g.properties id, p.optional = false → p.name ∈ Table.names fields) ∧
      ∀ name x p, (name, x) ∈ fields → (g.properties id).reverse.find? (·.name == name) = some p →
        Inhabits g p.type x := by
  constructor
  · intro hv
    cases hv with
    | kind h _ => cases h
    | object hrequired hpresent => exact ⟨_, rfl, hrequired, hpresent⟩
    | isOpaque h => cases h
  · rintro ⟨fields, rfl, hrequired, hpresent⟩
    exact .object hrequired hpresent

lemma inhabits_union_iff {members : List Ty} :
    Inhabits g (.union members) v ↔ ∃ m ∈ members, Inhabits g m v := by
  constructor
  · intro hv
    cases hv with
    | kind h _ => cases h
    | union hm hv => exact ⟨_, hm, hv⟩
    | isOpaque h => cases h
  · rintro ⟨m, hm, hv⟩
    exact .union hm hv

/-- The union of no types holds every value, like a type about which nothing is known. -/
lemma inhabits_of_isUnion_nil {element : Ty} (h : g.IsUnion [] element) : Inhabits g element v := by
  have hnever : g.IsUnion [] (.primitive .never) := gives_pure _
  rw [h.unique hnever]
  exact .isOpaque rfl

/-- The types that only say that a value may be missing hold `null`. -/
lemma inhabits_of_isNullish (h : t.isNullish = true) : Inhabits g t v ↔ v = .null := by
  have hkind : t.kind? = some .null := by
    cases t with
    | primitive p => cases p <;> first | rfl | cases h
    | _ => cases h
  rw [inhabits_kind_iff hkind]
  constructor
  · rintro ⟨⟩
    rfl
  · rintro rfl
    exact .null

end

/-! ## Unfoldings -/

section

variable {g : TypeGraph}

/-- What the schema of a union admits, if each of its members admits the same as its schema does: the
members that hold only `null` are the nullable mark. -/
lemma admits_unionSchema {nullable : Bool} {schemas : List Schema} {v : JsonValue}
    (h : (∃ s ∈ schemas, s.Admits v) ∨ (nullable = true ∧ v = .null)) :
    (Unfolding.unionSchema nullable schemas).Admits v := by
  match schemas with
  | [] => exact .unparsed
  | [s] =>
    rw [Unfolding.unionSchema]
    split
    · simpa [Schema.admits_orNull_iff] using h.imp_right And.right
    · simp_all
  | s :: s' :: rest => exact Schema.admits_ofVariants.2 h

/-- A parsed schema of a union admits what the schemas of its members do. -/
lemma of_admits_unionSchema {nullable : Bool} {schemas : List Schema} {v : JsonValue}
    (hparsed : (Unfolding.unionSchema nullable schemas).isParsed = true)
    (h : (Unfolding.unionSchema nullable schemas).Admits v) :
    (∀ s ∈ schemas, s.isParsed = true) ∧
      ((∃ s ∈ schemas, s.Admits v) ∨ (nullable = true ∧ v = .null)) := by
  match schemas with
  | [] => cases hparsed
  | [s] =>
    rw [Unfolding.unionSchema] at h hparsed
    cases nullable
    · simp_all
    · simp_all [Schema.admits_orNull_iff]
  | s :: s' :: rest => exact ⟨Schema.isParsed_ofVariants.1 hparsed, Schema.admits_ofVariants.1 h⟩

/-- The schema of an unfolding admits the values of the type. -/
theorem Unfolds.admits_of_inhabits {t : Ty} {u : Unfolding} (h : Unfolds g t u) {v : JsonValue}
    (hv : Inhabits g t v) : u.schema.Admits v := by
  induction h generalizing v with
  | kind hkind _ =>
    rw [Unfolding.schema]
    exact .primitive ((inhabits_kind_iff hkind).1 hv)
  | undefined _ => rw [Unfolding.schema]; exact .unparsed
  | isOpaque _ _ => rw [Unfolding.schema]; exact .unparsed
  | array _ ih =>
    obtain ⟨vs, rfl, hvs⟩ := inhabits_array_iff.1 hv
    rw [Unfolding.schema]
    exact .array fun x hx => ih (hvs x hx)
  | tuple _ helement _ ih =>
    obtain ⟨vs, rfl, hvs⟩ := (inhabits_tuple_iff helement).1 hv
    rw [Unfolding.schema]
    exact .array fun x hx => ih (hvs x hx)
  | emptyTuple _ ih =>
    obtain ⟨element, helement⟩ := g.exists_isUnion []
    obtain ⟨vs, rfl, -⟩ := (inhabits_tuple_iff helement).1 hv
    rw [Unfolding.schema]
    exact .array fun x _ => ih (.isOpaque rfl)
  | map _ ih =>
    obtain ⟨fields, rfl, hfields⟩ := inhabits_map_iff.1 hv
    rw [Unfolding.schema]
    exact .map fun name x hx => ih (hfields name x hx)
  | union u _ ih =>
    obtain ⟨m, hm, hv⟩ := inhabits_union_iff.1 hv
    rw [Unfolding.schema]
    refine admits_unionSchema ?_
    rcases hnull : m.isNullish with - | -
    · refine .inl ⟨(u m).schema, ?_, ih m hm hnull hv⟩
      exact List.mem_map_of_mem (List.mem_map_of_mem (List.mem_filter.2 ⟨hm, by simp [hnull]⟩))
    · exact .inr ⟨List.any_eq_true.2 ⟨m, hm, hnull⟩, (inhabits_of_isNullish hnull).1 hv⟩
  | marker _ => rw [Unfolding.schema]; exact .unparsed
  | @object id u _ ih =>
    obtain ⟨fields, rfl, hrequired, hpresent⟩ := inhabits_object_iff.1 hv
    rw [Unfolding.schema, List.map_map, Schema.admits_ofProperties]
    refine ⟨fields, rfl, ?_, ?_⟩
    · intro m hm hopt
      obtain ⟨p, hp, rfl⟩ := List.mem_map.1 hm
      exact hrequired p hp hopt
    · intro name x m hx hfind
      rw [← List.map_reverse, List.find?_map, Option.map_eq_some_iff] at hfind
      obtain ⟨p, hp, rfl⟩ := hfind
      have hmem : p ∈ g.properties id := List.mem_reverse.1 (List.mem_of_find?_eq_some hp)
      exact ih p hmem (hpresent name x p hx hp)

/-- A parsed schema of an unfolding admits the values of the type only. -/
theorem Unfolds.inhabits_of_admits {t : Ty} {u : Unfolding} (h : Unfolds g t u)
    (hparsed : u.schema.isParsed = true) {v : JsonValue} (hv : u.schema.Admits v) :
    Inhabits g t v := by
  induction h generalizing v with
  | kind hkind _ =>
    rw [Unfolding.schema, Schema.admits_primitive_iff] at hv
    simp only [Bool.false_eq_true, false_and, or_false] at hv
    exact .kind hkind hv
  | undefined _ => rw [Unfolding.schema] at hparsed; cases hparsed
  | isOpaque _ hopaque => exact .isOpaque hopaque
  | array _ ih =>
    rw [Unfolding.schema] at hv hparsed
    obtain ⟨vs, rfl, hvs⟩ | ⟨⟨⟩, -⟩ := Schema.admits_array_iff.1 hv
    exact .array fun x hx => ih hparsed (hvs x hx)
  | tuple _ helement _ ih =>
    rw [Unfolding.schema] at hv hparsed
    obtain ⟨vs, rfl, hvs⟩ | ⟨⟨⟩, -⟩ := Schema.admits_array_iff.1 hv
    exact .tuple helement fun x hx => ih hparsed (hvs x hx)
  | emptyTuple _ _ =>
    rw [Unfolding.schema] at hv
    obtain ⟨element, helement⟩ := g.exists_isUnion []
    obtain ⟨vs, rfl, -⟩ | ⟨⟨⟩, -⟩ := Schema.admits_array_iff.1 hv
    exact .tuple helement fun x _ => inhabits_of_isUnion_nil helement
  | map _ ih =>
    rw [Unfolding.schema] at hv hparsed
    obtain ⟨fields, rfl, hfields⟩ | ⟨⟨⟩, -⟩ := Schema.admits_map_iff.1 hv
    exact .map fun name x hx => ih hparsed (hfields name x hx)
  | union u _ ih =>
    rw [Unfolding.schema] at hv hparsed
    obtain ⟨hall, hone⟩ := of_admits_unionSchema hparsed hv
    rcases hone with ⟨s, hs, hv⟩ | ⟨hany, rfl⟩
    · obtain ⟨w, hw, rfl⟩ := List.mem_map.1 hs
      obtain ⟨m, hm, rfl⟩ := List.mem_map.1 hw
      obtain ⟨hmem, hnull⟩ := List.mem_filter.1 hm
      exact .union hmem (ih m hmem (by simpa using hnull) (hall _ hs) hv)
    · obtain ⟨m, hm, hnull⟩ := List.any_eq_true.1 hany
      exact .union hm ((inhabits_of_isNullish hnull).2 rfl)
  | marker _ => rw [Unfolding.schema] at hparsed; cases hparsed
  | @object id u _ ih =>
    rw [Unfolding.schema, List.map_map] at hv hparsed
    obtain ⟨fields, rfl, hrequired, hpresent⟩ := Schema.admits_ofProperties.1 hv
    refine .object (fun p hp hopt => ?_) fun name x p hx hfind => ?_
    · exact hrequired _ (List.mem_map_of_mem hp) hopt
    · have hmem : p ∈ g.properties id := List.mem_reverse.1 (List.mem_of_find?_eq_some hfind)
      have hlast : ((g.properties id).map ((fun m => (m.1, m.2.1, m.2.2.schema)) ∘ fun p =>
          (p.name, p.optional, u p))).reverse.find? (·.1 == name) =
          some (p.name, p.optional, (u p).schema) := by
        rw [← List.map_reverse, List.find?_map, Option.map_eq_some_iff]
        exact ⟨p, hfind, rfl⟩
      exact ih p hmem (Schema.isParsed_of_isParsed_ofProperties hparsed hlast)
        (hpresent name x _ hx hlast)

end

end RouteScribe.Typing
