import RouteScribe.Proofs.Schema.StructuralKey
import RouteScribe.Schema.Synthesis

/-!
# What schemas admit

`Schema.Admits` reads a schema as a set of JSON values: a node of a kind admits the values of that
kind whose parts its parts admit, a nullable node admits `null` besides, and a node that could not be
read admits everything.  Nothing is said about properties that an object schema does not name.

The order of properties does not matter to it (`admits_normal`), so the variants that `dedupe` drops
from a union add nothing to what the union admits (`admits_ofVariants`).
-/

namespace RouteScribe

/-- JSON values.  The fields of an object are kept as they are written, names may repeat. -/
inductive JsonValue where
  | null
  | boolean (b : Bool)
  | number (n : Numeral)
  | string (s : String)
  | array (items : List JsonValue)
  | object (fields : List (String × JsonValue))

/-- The values of a primitive kind. -/
inductive PrimitiveKind.Holds : PrimitiveKind → JsonValue → Prop
  | string (s : String) : Holds .string (.string s)
  | number (n : Numeral) : Holds .number (.number n)
  | boolean (b : Bool) : Holds .boolean (.boolean b)
  | null : Holds .null .null

namespace Schema

/-- The values that a schema admits. -/
inductive Admits : Schema → JsonValue → Prop
  | null {s : Schema} : s.nullable = true → Admits s .null
  | primitive {kind : PrimitiveKind} {format : Option String} {n : Bool} {v : JsonValue} :
    kind.Holds v → Admits (.primitive kind format n) v
  | array {items : Schema} {n : Bool} {vs : List JsonValue} :
    (∀ v ∈ vs, Admits items v) → Admits (.array items n) (.array vs)
  /-- Required names are present, and every named property that is present fits its schema. -/
  | object {properties : List (String × Schema)} {required : List String} {n : Bool}
      {fields : List (String × JsonValue)} :
    (∀ r ∈ required, r ∈ Table.names fields) →
    (∀ name s v, (name, s) ∈ properties → (name, v) ∈ fields → Admits s v) →
    Admits (.object properties required n) (.object fields)
  | map {values : Schema} {n : Bool} {fields : List (String × JsonValue)} :
    (∀ name v, (name, v) ∈ fields → Admits values v) → Admits (.map values n) (.object fields)
  | union {variants : List Schema} {n : Bool} {s : Schema} {v : JsonValue} :
    s ∈ variants → Admits s v → Admits (.union variants n) v
  | unparsed {description : Option String} {n : Bool} {v : JsonValue} :
    Admits (.unparsed description n) v

mutual

/-- Whether no node of a schema is unparsed. -/
def isParsed : Schema → Bool
  | .primitive _ _ _ => true
  | .array items _ => items.isParsed
  | .object properties _ _ => propertiesParsed properties
  | .map values _ => values.isParsed
  | .union variants _ => variantsParsed variants
  | .unparsed _ _ => false

def propertiesParsed : List (String × Schema) → Bool
  | [] => true
  | (_, s) :: rest => s.isParsed && propertiesParsed rest

def variantsParsed : List Schema → Bool
  | [] => true
  | s :: rest => s.isParsed && variantsParsed rest

end

lemma propertiesParsed_iff {ps : List (String × Schema)} :
    propertiesParsed ps = true ↔ ∀ name s, (name, s) ∈ ps → s.isParsed = true := by
  induction ps with
  | nil => simp [propertiesParsed]
  | cons p rest ih =>
    obtain ⟨name, s⟩ := p
    simp only [propertiesParsed, Bool.and_eq_true, ih, List.mem_cons]
    constructor
    · rintro ⟨hs, hrest⟩ name' s' (heq | hmem)
      · obtain ⟨rfl, rfl⟩ := Prod.mk.inj heq
        exact hs
      · exact hrest name' s' hmem
    · intro h
      exact ⟨h name s (.inl rfl), fun name' s' hmem => h name' s' (.inr hmem)⟩

lemma variantsParsed_iff {vs : List Schema} :
    variantsParsed vs = true ↔ ∀ s ∈ vs, s.isParsed = true := by
  induction vs with
  | nil => simp [variantsParsed]
  | cons s rest ih => simp [variantsParsed, ih]

lemma sizeOf_lt_object {ps : List (String × Schema)} {rs : List String} {n : Bool} {name : String}
    {s : Schema} (h : (name, s) ∈ ps) : sizeOf s < sizeOf (object ps rs n) := by
  have hsize := List.sizeOf_lt_of_mem h
  simp only [Prod.mk.sizeOf_spec, object.sizeOf_spec] at hsize ⊢
  omega

lemma sizeOf_lt_union {vs : List Schema} {n : Bool} {s : Schema} (h : s ∈ vs) :
    sizeOf s < sizeOf (union vs n) := by
  have hsize := List.sizeOf_lt_of_mem h
  simp only [union.sizeOf_spec]
  omega

@[simp] lemma isParsed_orNull (s : Schema) : s.orNull.isParsed = s.isParsed := by
  cases s <;> rfl

/-! ## One node -/

section

variable {v : JsonValue} {n : Bool}

lemma admits_primitive_iff {kind : PrimitiveKind} {format : Option String} :
    (primitive kind format n).Admits v ↔ kind.Holds v ∨ (n = true ∧ v = .null) := by
  constructor
  · rintro (hnull | hkind)
    · exact .inr ⟨hnull, rfl⟩
    · exact .inl hkind
  · rintro (hkind | ⟨hnull, rfl⟩)
    · exact .primitive hkind
    · exact .null hnull

lemma admits_array_iff {items : Schema} :
    (array items n).Admits v ↔
      (∃ vs, v = .array vs ∧ ∀ x ∈ vs, items.Admits x) ∨ (n = true ∧ v = .null) := by
  constructor
  · rintro (hnull | _ | hitems)
    · exact .inr ⟨hnull, rfl⟩
    · exact .inl ⟨_, rfl, hitems⟩
  · rintro (⟨vs, rfl, hitems⟩ | ⟨hnull, rfl⟩)
    · exact .array hitems
    · exact .null hnull

lemma admits_object_iff {ps : List (String × Schema)} {rs : List String} :
    (object ps rs n).Admits v ↔
      (∃ fs, v = .object fs ∧ (∀ r ∈ rs, r ∈ Table.names fs) ∧
        ∀ name s x, (name, s) ∈ ps → (name, x) ∈ fs → s.Admits x) ∨ (n = true ∧ v = .null) := by
  constructor
  · rintro (hnull | _ | _ | ⟨hreq, hprops⟩)
    · exact .inr ⟨hnull, rfl⟩
    · exact .inl ⟨_, rfl, hreq, hprops⟩
  · rintro (⟨fs, rfl, hreq, hprops⟩ | ⟨hnull, rfl⟩)
    · exact .object hreq hprops
    · exact .null hnull

lemma admits_map_iff {values : Schema} :
    (map values n).Admits v ↔
      (∃ fs, v = .object fs ∧ ∀ name x, (name, x) ∈ fs → values.Admits x) ∨
        (n = true ∧ v = .null) := by
  constructor
  · rintro (hnull | _ | _ | _ | hvalues)
    · exact .inr ⟨hnull, rfl⟩
    · exact .inl ⟨_, rfl, hvalues⟩
  · rintro (⟨fs, rfl, hvalues⟩ | ⟨hnull, rfl⟩)
    · exact .map hvalues
    · exact .null hnull

lemma admits_union_iff {vs : List Schema} :
    (union vs n).Admits v ↔ (∃ s ∈ vs, s.Admits v) ∨ (n = true ∧ v = .null) := by
  constructor
  · rintro (hnull | _ | _ | _ | _ | ⟨hmem, hs⟩)
    · exact .inr ⟨hnull, rfl⟩
    · exact .inl ⟨_, hmem, hs⟩
  · rintro (⟨s, hmem, hs⟩ | ⟨hnull, rfl⟩)
    · exact .union hmem hs
    · exact .null hnull

/-- The nullable form of a schema admits `null` besides. -/
lemma admits_orNull_iff {s : Schema} : s.orNull.Admits v ↔ s.Admits v ∨ v = .null := by
  constructor
  · intro h
    by_cases hv : v = .null
    · exact .inr hv
    · left
      cases s with
      | primitive => simpa [orNull, admits_primitive_iff, hv] using h
      | array => simpa [orNull, admits_array_iff, hv] using h
      | object => simpa [orNull, admits_object_iff, hv] using h
      | map => simpa [orNull, admits_map_iff, hv] using h
      | union => simpa [orNull, admits_union_iff, hv] using h
      | unparsed => exact .unparsed
  · rintro (h | rfl)
    · cases s with
      | primitive => exact admits_primitive_iff.2 ((admits_primitive_iff.1 h).imp id fun hn => ⟨rfl, hn.2⟩)
      | array => exact admits_array_iff.2 ((admits_array_iff.1 h).imp id fun hn => ⟨rfl, hn.2⟩)
      | object => exact admits_object_iff.2 ((admits_object_iff.1 h).imp id fun hn => ⟨rfl, hn.2⟩)
      | map => exact admits_map_iff.2 ((admits_map_iff.1 h).imp id fun hn => ⟨rfl, hn.2⟩)
      | union => exact admits_union_iff.2 ((admits_union_iff.1 h).imp id fun hn => ⟨rfl, hn.2⟩)
      | unparsed => exact .unparsed
    · exact .null (nullable_orNull s)

end

/-! ## Normal forms, unions and objects -/

/-- The order of properties does not matter to what a schema admits. -/
theorem admits_normal (s : Schema) (v : JsonValue) : s.normal.Admits v ↔ s.Admits v := by
  match s with
  | .primitive kind format n => rw [normal, admits_primitive_iff, admits_primitive_iff]
  | .array items n =>
    rw [normal, admits_array_iff, admits_array_iff]
    simp only [admits_normal items]
  | .object ps rs n =>
    rw [normal, admits_object_iff, admits_object_iff, normalProperties_eq_map]
    have hprops (fs : List (String × JsonValue)) :
        (∀ name s x, (name, s) ∈ (ps.map fun p => (p.1, p.2.normal)).mergeSort byName →
          (name, x) ∈ fs → s.Admits x) ↔
        ∀ name s x, (name, s) ∈ ps → (name, x) ∈ fs → s.Admits x := by
      simp only [List.mem_mergeSort, List.mem_map, Prod.mk.injEq]
      constructor
      · intro h name s x hs hx
        exact (admits_normal s x).1 (h name s.normal x ⟨_, hs, rfl, rfl⟩ hx)
      · rintro h name s x ⟨p, hp, rfl, rfl⟩ hx
        exact (admits_normal p.2 x).2 (h p.1 p.2 x hp hx)
    simp only [hprops]
  | .map values n =>
    rw [normal, admits_map_iff, admits_map_iff]
    simp only [admits_normal values]
  | .union vs n =>
    rw [normal, admits_union_iff, admits_union_iff, normalVariants_eq_map]
    have hvariants : (∃ s ∈ vs.map normal, s.Admits v) ↔ ∃ s ∈ vs, s.Admits v := by
      constructor
      · rintro ⟨s, hs, hv⟩
        obtain ⟨t, ht, rfl⟩ := List.mem_map.1 hs
        exact ⟨t, ht, (admits_normal t v).1 hv⟩
      · rintro ⟨t, ht, hv⟩
        exact ⟨t.normal, List.mem_map_of_mem ht, (admits_normal t v).2 hv⟩
    rw [hvariants]
  | .unparsed d n => rw [normal]
termination_by sizeOf s
decreasing_by
  · simp +arith
  · exact sizeOf_lt_object hs
  · exact sizeOf_lt_object hp
  · simp +arith
  · exact sizeOf_lt_union ht
  · exact sizeOf_lt_union ht

/-- Bringing a schema into its normal form neither adds nor removes unparsed nodes. -/
theorem isParsed_normal (s : Schema) : s.normal.isParsed = s.isParsed := by
  match s with
  | .primitive kind format n => rw [normal, isParsed, isParsed]
  | .array items n => rw [normal, isParsed, isParsed, isParsed_normal items]
  | .object ps rs n =>
    rw [normal, isParsed, isParsed, normalProperties_eq_map, Bool.eq_iff_iff, propertiesParsed_iff,
      propertiesParsed_iff]
    simp only [List.mem_mergeSort, List.mem_map, Prod.mk.injEq]
    constructor
    · intro h name s hs
      exact isParsed_normal s ▸ h name s.normal ⟨_, hs, rfl, rfl⟩
    · rintro h name s ⟨p, hp, rfl, rfl⟩
      exact isParsed_normal p.2 ▸ h p.1 p.2 hp
  | .map values n => rw [normal, isParsed, isParsed, isParsed_normal values]
  | .union vs n =>
    rw [normal, isParsed, isParsed, normalVariants_eq_map, Bool.eq_iff_iff, variantsParsed_iff,
      variantsParsed_iff]
    constructor
    · intro h s hs
      exact isParsed_normal s ▸ h s.normal (List.mem_map_of_mem hs)
    · intro h t ht
      obtain ⟨s, hs, rfl⟩ := List.mem_map.1 ht
      exact isParsed_normal s ▸ h s hs
  | .unparsed d n => rw [normal]
termination_by sizeOf s
decreasing_by
  · simp +arith
  · exact sizeOf_lt_object hs
  · exact sizeOf_lt_object hp
  · simp +arith
  · exact sizeOf_lt_union hs
  · exact sizeOf_lt_union hs

/-- A union made of schemas admits what one of them admits, and `null` if it is nullable: merging
equal variants loses nothing. -/
theorem admits_ofVariants {nullable : Bool} {schemas : List Schema} {v : JsonValue} :
    (ofVariants nullable schemas).Admits v ↔
      (∃ s ∈ schemas, s.Admits v) ∨ (nullable = true ∧ v = .null) := by
  have hdedupe : (∃ s ∈ dedupe schemas, s.Admits v) ↔ ∃ s ∈ schemas, s.Admits v := by
    constructor
    · rintro ⟨s, hs, hv⟩
      exact ⟨s, mem_of_mem_dedupe hs, hv⟩
    · rintro ⟨s, hs, hv⟩
      obtain ⟨t, ht, hnormal⟩ := exists_mem_dedupe hs
      exact ⟨t, ht, (admits_normal t v).1 (hnormal ▸ (admits_normal s v).2 hv)⟩
  unfold ofVariants
  split
  · rename_i s hs
    rw [← hdedupe, hs]
    cases nullable <;> simp [admits_orNull_iff]
  · rw [admits_union_iff, hdedupe]

/-- A union made of schemas is parsed when all of them are. -/
theorem isParsed_ofVariants {nullable : Bool} {schemas : List Schema} :
    (ofVariants nullable schemas).isParsed = true ↔ ∀ s ∈ schemas, s.isParsed = true := by
  have hdedupe : (∀ s ∈ dedupe schemas, s.isParsed = true) ↔ ∀ s ∈ schemas, s.isParsed = true := by
    constructor
    · intro h s hs
      obtain ⟨t, ht, hnormal⟩ := exists_mem_dedupe hs
      rw [← isParsed_normal s, ← hnormal, isParsed_normal t]
      exact h t ht
    · intro h s hs
      exact h s (mem_of_mem_dedupe hs)
  unfold ofVariants
  split
  · rename_i s hs
    rw [← hdedupe, hs]
    cases nullable <;> simp
  · rw [isParsed, variantsParsed_iff, hdedupe]

/-- An object schema made of members: the names that are not optional are present, and what stands
under a name fits the last schema of that name. -/
theorem admits_ofProperties {members : List (String × Bool × Schema)} {v : JsonValue} :
    (ofProperties members).Admits v ↔
      ∃ fields, v = .object fields ∧
        (∀ m ∈ members, m.2.1 = false → m.1 ∈ Table.names fields) ∧
        ∀ name x m, (name, x) ∈ fields → members.reverse.find? (·.1 == name) = some m →
          m.2.2.Admits x := by
  have hlast (name : String) (s : Schema) :
      (name, s) ∈ Table.ofList (members.map fun m => (m.1, m.2.2)) ↔
        ∃ m, members.reverse.find? (·.1 == name) = some m ∧ (m.1, m.2.2) = (name, s) := by
    rw [Table.mem_ofList, ← List.map_reverse, List.find?_map, Option.map_eq_some_iff]
    rfl
  rw [ofProperties, admits_object_iff]
  simp only [Bool.false_eq_true, false_and, or_false]
  refine exists_congr fun fields => and_congr_right fun _ => and_congr ?_ ?_
  · constructor
    · intro h m hm hopt
      exact h m.1 (List.mem_map.2 ⟨m, List.mem_filter.2 ⟨hm, by simp [hopt]⟩, rfl⟩)
    · rintro h r hr
      obtain ⟨m, hm, rfl⟩ := List.mem_map.1 hr
      obtain ⟨hmem, hopt⟩ := List.mem_filter.1 hm
      exact h m hmem (by simpa using hopt)
  · constructor
    · intro h name x m hx hfind
      have hname : m.1 = name := by simpa using List.find?_some hfind
      exact h name m.2.2 x ((hlast name m.2.2).2 ⟨m, hfind, by rw [hname]⟩) hx
    · intro h name s x hs hx
      obtain ⟨m, hfind, heq⟩ := (hlast name s).1 hs
      obtain ⟨-, rfl⟩ := Prod.mk.inj heq
      exact h name x m hx hfind

/-- The last schema under each name of a parsed object schema is parsed. -/
theorem isParsed_of_isParsed_ofProperties {members : List (String × Bool × Schema)}
    (h : (ofProperties members).isParsed = true) {name : String} {m : String × Bool × Schema}
    (hfind : members.reverse.find? (·.1 == name) = some m) : m.2.2.isParsed = true := by
  rw [ofProperties, isParsed, propertiesParsed_iff] at h
  refine h m.1 m.2.2 (Table.mem_ofList.2 ?_)
  have hname : m.1 = name := by simpa using List.find?_some hfind
  rw [← List.map_reverse, List.find?_map, Option.map_eq_some_iff]
  exact ⟨m, by rw [hname]; exact hfind, rfl⟩

end Schema

end RouteScribe
