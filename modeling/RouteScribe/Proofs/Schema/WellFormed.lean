import RouteScribe.Proofs.Schema.Deduplication
import RouteScribe.Proofs.Table
import RouteScribe.Schema.Synthesis

/-!
# What holds of the parts of a schema

Schemas are put together in two ways, `ofVariants` and `ofProperties`.  A fact about all schemas that
occur in a schema (`Everywhere`) carries over from the parts, if it holds of the union or the object
that is made of them.

A union is in normal form (`NormalUnion`) if it has at least two variants, which a document tells
apart and none of which is a union, is null or admits null; a schema all of whose unions are in normal
form is `WellFormed`.
-/

namespace RouteScribe.Schema

/-! ## What occurs in a schema -/

/-- A schema occurs in another one, at any depth. -/
inductive Occurs (s : Schema) : Schema → Prop
  | here : Occurs s s
  | items {items : Schema} {n : Bool} : Occurs s items → Occurs s (.array items n)
  | values {values : Schema} {n : Bool} : Occurs s values → Occurs s (.map values n)
  | property {name : String} {field : Schema} {properties : List (String × Schema)}
    {required : List String} {n : Bool} :
    (name, field) ∈ properties → Occurs s field → Occurs s (.object properties required n)
  | variant {variant : Schema} {variants : List Schema} {n : Bool} :
    variant ∈ variants → Occurs s variant → Occurs s (.union variants n)

/-- What holds of all schemas that occur in a schema. -/
def Everywhere (P : Schema → Prop) (s : Schema) : Prop := ∀ t, Occurs t s → P t

section

variable {P : Schema → Prop} {s : Schema} {n : Bool}

lemma everywhere_primitive {kind : PrimitiveKind} {format : Option String} :
    Everywhere P (.primitive kind format n) ↔ P (.primitive kind format n) := by
  refine ⟨fun h => h _ .here, fun h t ht => ?_⟩
  cases ht
  exact h

lemma everywhere_unparsed {description : Option String} :
    Everywhere P (.unparsed description n) ↔ P (.unparsed description n) := by
  refine ⟨fun h => h _ .here, fun h t ht => ?_⟩
  cases ht
  exact h

lemma everywhere_array : Everywhere P (.array s n) ↔ P (.array s n) ∧ s.Everywhere P := by
  refine ⟨fun h => ⟨h _ .here, fun t ht => h t (.items ht)⟩, fun h t ht => ?_⟩
  cases ht with
  | here => exact h.1
  | items ht => exact h.2 t ht

lemma everywhere_map : Everywhere P (.map s n) ↔ P (.map s n) ∧ s.Everywhere P := by
  refine ⟨fun h => ⟨h _ .here, fun t ht => h t (.values ht)⟩, fun h t ht => ?_⟩
  cases ht with
  | here => exact h.1
  | values ht => exact h.2 t ht

lemma everywhere_object {properties : List (String × Schema)} {required : List String} :
    Everywhere P (.object properties required n) ↔
      P (.object properties required n) ∧ ∀ p ∈ properties, p.2.Everywhere P := by
  refine ⟨fun h => ⟨h _ .here, fun p hp t ht => h t (.property hp ht)⟩, fun h t ht => ?_⟩
  cases ht with
  | here => exact h.1
  | property hp ht => exact h.2 _ hp t ht

lemma everywhere_union {variants : List Schema} :
    Everywhere P (.union variants n) ↔
      P (.union variants n) ∧ ∀ v ∈ variants, v.Everywhere P := by
  refine ⟨fun h => ⟨h _ .here, fun v hv t ht => h t (.variant hv ht)⟩, fun h t ht => ?_⟩
  cases ht with
  | here => exact h.1
  | variant hv ht => exact h.2 _ hv t ht

/-! ## Schemas that are put together -/

/-- Whether null is admitted as well matters for the schema itself only. -/
lemma Everywhere.orNull (h : s.Everywhere P) (hP : P s.orNull) : s.orNull.Everywhere P := by
  cases s with
  | primitive => exact everywhere_primitive.2 hP
  | unparsed => exact everywhere_unparsed.2 hP
  | array => exact everywhere_array.2 ⟨hP, (everywhere_array.1 h).2⟩
  | map => exact everywhere_map.2 ⟨hP, (everywhere_map.1 h).2⟩
  | object => exact everywhere_object.2 ⟨hP, (everywhere_object.1 h).2⟩
  | union => exact everywhere_union.2 ⟨hP, (everywhere_union.1 h).2⟩

/-- The union of some variants, of which there may be only one. -/
lemma everywhere_ofVariants {schemas : List Schema} (hP : ∀ s, P s → P s.orNull)
    (h : ∀ s ∈ schemas, s.Everywhere P)
    (hunion : (∀ s, dedupe schemas ≠ [s]) → P (.union (dedupe schemas) n)) :
    (ofVariants n schemas).Everywhere P := by
  have hkept : ∀ s ∈ dedupe schemas, s.Everywhere P := fun s hs => h s (mem_of_mem_dedupe hs)
  unfold ofVariants
  split
  · rename_i s hs
    have hsingle : s.Everywhere P := hkept s (by simp [hs])
    split
    · exact hsingle.orNull (hP s (hsingle s .here))
    · exact hsingle
  · rename_i hsingle
    exact everywhere_union.2 ⟨hunion hsingle, hkept⟩

/-- An object requires only properties that it has. -/
lemma mem_names_of_required {members : List (String × Bool × Schema)} {name : String}
    (h : name ∈ (members.filter fun m => !m.2.1).map (·.1)) :
    name ∈ (Table.ofList (members.map fun m => (m.1, m.2.2))).map (·.1) := by
  obtain ⟨m, hm, rfl⟩ := List.mem_map.1 h
  have hmem : m.1 ∈ Table.names (members.map fun m => (m.1, m.2.2)) :=
    Table.mem_names_of_mem (List.mem_map_of_mem (List.mem_of_mem_filter hm))
  change m.1 ∈ Table.names (Table.ofList _)
  rwa [Table.names_ofList, List.mem_eraseDups]

/-- The object with some members. -/
lemma everywhere_ofProperties {members : List (String × Bool × Schema)}
    (h : ∀ m ∈ members, m.2.2.Everywhere P) (hobject : P (ofProperties members)) :
    (ofProperties members).Everywhere P := by
  refine everywhere_object.2 ⟨hobject, fun p hp => ?_⟩
  obtain ⟨m, hm, rfl⟩ := List.mem_map.1 (Table.mem_of_mem_ofList hp)
  exact h m hm

end

/-! ## Unions in normal form -/

/-- A schema that can be a variant of a union: no union, not null, and not nullable. -/
def IsVariant : Schema → Prop
  | .union _ _ | .primitive .null _ _ => False
  | s => s.nullable = false

/-- Variants that make a union in normal form. -/
structure NormalUnion (variants : List Schema) : Prop where
  several : 2 ≤ variants.length
  distinct : (keysOf variants).Nodup
  variants : ∀ v ∈ variants, v.IsVariant

/-- A schema that is in normal form if it is a union. -/
def IsNormal : Schema → Prop
  | .union variants _ => NormalUnion variants
  | _ => True

/-- A schema all of whose unions are in normal form. -/
abbrev WellFormed (s : Schema) : Prop := s.Everywhere IsNormal

section

variable {s : Schema} {schemas : List Schema} {nullable : Bool}

lemma IsNormal.orNull (h : s.IsNormal) : s.orNull.IsNormal := by
  cases s with
  | union => exact h
  | _ => trivial

lemma dedupe_ne_nil (h : schemas ≠ []) : dedupe schemas ≠ [] := by
  cases schemas with
  | nil => exact absurd rfl h
  | cons s rest => simp [dedupe, dedupeFrom]

/-- The union of some variants is well formed. -/
lemma wellFormed_ofVariants (hne : schemas ≠ []) (h : ∀ s ∈ schemas, s.WellFormed ∧ s.IsVariant) :
    (ofVariants nullable schemas).WellFormed := by
  refine everywhere_ofVariants (fun _ hs => hs.orNull) (fun s hs => (h s hs).1) fun hsingle => ?_
  have hdedupe : dedupe schemas ≠ [] := dedupe_ne_nil hne
  refine ⟨?_, nodup_keysOf_dedupe schemas, fun v hv => (h v (mem_of_mem_dedupe hv)).2⟩
  match hlist : dedupe schemas with
  | [] => exact absurd hlist hdedupe
  | [s] => exact absurd hlist (hsingle s)
  | _ :: _ :: _ => simp

end

end RouteScribe.Schema
