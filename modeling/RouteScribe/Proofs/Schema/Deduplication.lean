import RouteScribe.Proofs.Schema.StructuralKey

/-!
# Which schemas deduplication keeps

The structural key of a schema is that of its normal form, so two schemas have the same key exactly
when they are equal up to the order of properties and empty formats (`structuralKey_eq_iff`).  Hence
`dedupe` can be described without keys: it keeps a schema when no schema before it has the same normal
form (`dedupe_eq_firstsOf`).  No two schemas that are kept have the same key, and schemas that come a
second time change nothing.
-/

namespace RouteScribe.Schema

open Document (Value sortedFields)

/-! ## The key of a normal form -/

section

variable {α : Type}

lemma byName_trans (a b c : String × α) (hab : byName a b = true) (hbc : byName b c = true) :
    byName a c = true := by
  simp only [byName, Bool.or_eq_true, decide_eq_true_eq, beq_iff_eq] at hab hbc ⊢
  rcases hab with hab | hab
  · rcases hbc with hbc | hbc
    · exact .inl (String.lt_trans hab hbc)
    · exact .inl (hbc ▸ hab)
  · rwa [hab]

lemma byName_total (a b : String × α) : (byName a b || byName b a) = true := by
  simp only [byName, Bool.or_eq_true, decide_eq_true_eq, beq_iff_eq]
  rcases Std.lt_trichotomy a.1 b.1 with h | h | h
  · exact .inl (.inl h)
  · exact .inl (.inr h)
  · exact .inr (.inl h)

/-- Entries that are in order stay where they are. -/
lemma mergeSort_mergeSort_byName (l : List (String × α)) :
    (l.mergeSort byName).mergeSort byName = l.mergeSort byName :=
  List.mergeSort_of_pairwise (List.pairwise_mergeSort byName_trans byName_total l)

end

/-- The sorted form of an object is that of its fields. -/
lemma sorted_object_congr {fs gs : List (String × Value)}
    (h : fs.map (fun f => (f.1, f.2.sorted)) = gs.map fun f => (f.1, f.2.sorted)) :
    (Value.object fs).sorted = (Value.object gs).sorted := by
  rw [Value.sorted, Value.sorted, sortedFields_eq_map, sortedFields_eq_map, h]

/-- The sorted form of a schema is that of its normal form. -/
theorem sorted_toValue_normal (s : Schema) : s.normal.toValue.sorted = s.toValue.sorted := by
  cases s with
  | primitive kind format n =>
    rcases format with - | f
    · rfl
    by_cases hf : f = ""
    · subst hf
      rfl
    · have hfilter : (some f).filter (· ≠ "") = some f := by simp [hf]
      rw [normal, hfilter]
  | array items n =>
    have hitems := sorted_toValue_normal items
    exact sorted_object_congr (by simp only [List.map_append, List.map_cons, hitems])
  | object ps rs n =>
    have hproperties : (Value.object (propertyValues ((normalProperties ps).mergeSort byName))).sorted
        = (Value.object (propertyValues ps)).sorted := by
      rw [sorted_propertyValues, sorted_propertyValues, mergeSort_mergeSort_byName,
        normalProperties_eq_map, ← map_mergeSort_byName, List.map_map]
      refine congrArg Value.object (List.map_congr_left fun p hp => ?_)
      have hmem : p ∈ ps := List.mem_mergeSort.1 hp
      exact Prod.ext rfl (sorted_toValue_normal p.2)
    exact sorted_object_congr (by simp only [List.map_append, List.map_cons, hproperties])
  | map values n =>
    have hvalues := sorted_toValue_normal values
    exact sorted_object_congr (by simp only [List.map_append, List.map_cons, hvalues])
  | union vs n =>
    have hvariants : (Value.list (variantValues (normalVariants vs))).sorted
        = (Value.list (variantValues vs)).sorted := by
      rw [Value.sorted, Value.sorted, sortedItems_eq_map, sortedItems_eq_map, variantValues_eq_map,
        variantValues_eq_map, normalVariants_eq_map, List.map_map, List.map_map, List.map_map]
      exact congrArg Value.list (List.map_congr_left fun s hs => sorted_toValue_normal s)
    exact sorted_object_congr (by simp only [List.map_append, List.map_cons, hvariants])
  | unparsed d n => rfl
termination_by sizeOf s
decreasing_by
  · simp +arith
  · have hsize := List.sizeOf_lt_of_mem hmem
    obtain ⟨name, s⟩ := p
    simp only [Prod.mk.sizeOf_spec, object.sizeOf_spec] at hsize ⊢
    omega
  · simp +arith
  · have hsize := List.sizeOf_lt_of_mem hs
    simp only [union.sizeOf_spec]
    omega

/-- Two schemas have the same key exactly when they have the same normal form. -/
theorem structuralKey_eq_iff {a b : Schema} :
    a.structuralKey = b.structuralKey ↔ a.normal = b.normal := by
  refine ⟨normal_eq_of_structuralKey_eq, fun h => ?_⟩
  have hsorted : a.toValue.sorted = b.toValue.sorted := by
    rw [← sorted_toValue_normal a, ← sorted_toValue_normal b, h]
  rw [structuralKey, structuralKey, Value.orderlessKey, Value.orderlessKey, hsorted]

/-! ## What deduplication keeps -/

/-- Equality up to the order of properties and empty formats. -/
def Alike (a b : Schema) : Prop := a.normal = b.normal

instance (a b : Schema) : Decidable (Alike a b) := decidable_of_iff _ structuralKey_eq_iff

/-- The schemas of a list that are like none before them. -/
def firstsOf (schemas : List Schema) : List Schema :=
  (schemas.zipIdx.filter fun (s, i) => decide (∀ t ∈ schemas.take i, ¬Alike t s)).map (·.1)

/-- The keys of some schemas. -/
def keysOf (schemas : List Schema) : List String := schemas.map structuralKey

section

variable {s : Schema} {seen seen' : List String} {schemas schemas' : List Schema}

/-- Only which keys have been seen counts. -/
lemma dedupeFrom_congr (h : ∀ k, k ∈ seen ↔ k ∈ seen') :
    dedupeFrom seen schemas = dedupeFrom seen' schemas := by
  induction schemas generalizing seen seen' with
  | nil => rfl
  | cons s rest ih =>
    have hseen : s.structuralKey ∈ seen ↔ s.structuralKey ∈ seen' := h s.structuralKey
    have hnext : ∀ k, k ∈ s.structuralKey :: seen ↔ k ∈ s.structuralKey :: seen' := fun k => by
      rw [List.mem_cons, List.mem_cons, h k]
    simp only [dedupeFrom, hseen, ih h, ih hnext]

/-- Deduplication goes on behind a list as if the keys of the list had been seen. -/
lemma dedupeFrom_append : dedupeFrom seen (schemas ++ schemas') =
    dedupeFrom seen schemas ++ dedupeFrom (keysOf schemas ++ seen) schemas' := by
  induction schemas generalizing seen with
  | nil => rfl
  | cons s rest ih =>
    have hnext : dedupeFrom (keysOf rest ++ s.structuralKey :: seen) schemas' =
        dedupeFrom (keysOf (s :: rest) ++ seen) schemas' :=
      dedupeFrom_congr fun k => by simp only [keysOf, List.map_cons, List.mem_append,
        List.mem_cons, or_left_comm, or_assoc]
    by_cases hs : s.structuralKey ∈ seen
    · have hseen : dedupeFrom (keysOf rest ++ seen) schemas' =
          dedupeFrom (keysOf rest ++ s.structuralKey :: seen) schemas' :=
        dedupeFrom_congr fun k => by
          simp only [List.mem_append, List.mem_cons]
          exact or_congr_right ⟨.inr, fun hk => hk.elim (fun heq => heq ▸ hs) id⟩
      rw [List.cons_append, dedupeFrom, dedupeFrom, if_pos hs, if_pos hs, ih, hseen, hnext]
    · rw [List.cons_append, dedupeFrom, dedupeFrom, if_neg hs, if_neg hs, ih, hnext,
        List.cons_append]

lemma dedupeFrom_eq_nil (h : ∀ s ∈ schemas, s.structuralKey ∈ seen) :
    dedupeFrom seen schemas = [] := by
  induction schemas with
  | nil => rfl
  | cons s rest ih =>
    rw [dedupeFrom, if_pos (h s List.mem_cons_self), ih fun t ht => h t (List.mem_cons_of_mem _ ht)]

/-- Schemas with different keys, none of which has been seen, are all kept. -/
lemma dedupeFrom_eq_self (hnodup : (keysOf schemas).Nodup) (h : ∀ k ∈ keysOf schemas, k ∉ seen) :
    dedupeFrom seen schemas = schemas := by
  induction schemas generalizing seen with
  | nil => rfl
  | cons s rest ih =>
    rw [keysOf, List.map_cons, List.nodup_cons] at hnodup
    rw [dedupeFrom, if_neg (h _ List.mem_cons_self), ih hnodup.2 fun k hk hseen => ?_]
    rcases List.mem_cons.1 hseen with rfl | hseen
    · exact hnodup.1 hk
    · exact h k (List.mem_cons_of_mem _ hk) hseen

/-- The schemas that are kept have keys that were not seen, and no two the same. -/
lemma keysOf_dedupeFrom (seen : List String) (schemas : List Schema) :
    (keysOf (dedupeFrom seen schemas)).Nodup ∧ ∀ k ∈ keysOf (dedupeFrom seen schemas), k ∉ seen := by
  induction schemas generalizing seen with
  | nil => exact ⟨.nil, fun k hk => (by cases hk)⟩
  | cons s rest ih =>
    rw [dedupeFrom]
    split
    case isTrue => exact ih seen
    case isFalse hs =>
      obtain ⟨hnodup, hnew⟩ := ih (s.structuralKey :: seen)
      rw [keysOf, List.map_cons, List.nodup_cons]
      refine ⟨⟨fun hk => hnew _ hk List.mem_cons_self, hnodup⟩, fun k hk => ?_⟩
      rcases List.mem_cons.1 hk with rfl | hk
      · exact hs
      · exact fun hseen => hnew k hk (List.mem_cons_of_mem _ hseen)

lemma nodup_keysOf_dedupe (schemas : List Schema) : (keysOf (dedupe schemas)).Nodup :=
  (keysOf_dedupeFrom [] schemas).1

/-- A schema behind a list is kept if it is like none of the list. -/
lemma dedupe_concat : dedupe (schemas ++ [s]) =
    if ∃ t ∈ schemas, Alike t s then dedupe schemas else dedupe schemas ++ [s] := by
  have hkey : s.structuralKey ∈ keysOf schemas ++ [] ↔ ∃ t ∈ schemas, Alike t s := by
    rw [List.append_nil, keysOf, List.mem_map]
    simp only [Alike, structuralKey_eq_iff]
  rw [dedupe, dedupeFrom_append, dedupeFrom]
  simp only [hkey]
  split
  · exact List.append_nil _
  · rfl

lemma firstsOf_concat : firstsOf (schemas ++ [s]) =
    if ∃ t ∈ schemas, Alike t s then firstsOf schemas else firstsOf schemas ++ [s] := by
  have hbefore : (schemas.zipIdx.filter fun (t, i) =>
      decide (∀ u ∈ (schemas ++ [s]).take i, ¬Alike u t)) =
      schemas.zipIdx.filter fun (t, i) => decide (∀ u ∈ schemas.take i, ¬Alike u t) := by
    refine List.filter_congr fun (t, i) ht => ?_
    have hi : i < schemas.length := (List.mem_zipIdx' ht).1
    simp only [List.take_append_of_le_length hi.le]
  have hlast : (∀ u ∈ (schemas ++ [s]).take schemas.length, ¬Alike u s) ↔
      ¬∃ t ∈ schemas, Alike t s := by
    rw [List.take_left]
    simp only [not_exists, not_and]
  rw [firstsOf, List.zipIdx_append, List.filter_append, hbefore]
  simp only [Nat.zero_add, List.zipIdx_singleton, List.filter_singleton, hlast, decide_not]
  by_cases h : ∃ t ∈ schemas, Alike t s
  · rw [if_pos h, decide_eq_true h, Bool.not_true, cond_false, List.append_nil, firstsOf]
  · rw [if_neg h, decide_eq_false h, Bool.not_false, cond_true, List.map_append, firstsOf,
      List.map_singleton]

/-- Deduplication keeps the first schema of each class. -/
lemma dedupe_eq_firstsOf (schemas : List Schema) : dedupe schemas = firstsOf schemas := by
  induction schemas using List.reverseRecOn with
  | nil => rfl
  | append_singleton schemas s ih => rw [dedupe_concat, firstsOf_concat, ih]

lemma dedupe_dedupe (schemas : List Schema) : dedupe (dedupe schemas) = dedupe schemas :=
  dedupeFrom_eq_self (nodup_keysOf_dedupe schemas) fun _ _ => List.not_mem_nil

lemma dedupe_append_self (schemas : List Schema) : dedupe (schemas ++ schemas) = dedupe schemas := by
  have hseen : ∀ s ∈ schemas, s.structuralKey ∈ keysOf schemas ++ [] := fun s hs =>
    List.mem_append_left _ (List.mem_map_of_mem hs)
  rw [dedupe, dedupe, dedupeFrom_append, dedupeFrom_eq_nil hseen, List.append_nil]

end

/-- **Structural keys decide equality of schemas**, up to the order of properties and empty formats.
Deduplication keeps the first schema of each class of this equality; to do so once more, or with all
schemas a second time, changes nothing. -/
theorem structuralKey_decides :
    (∀ a b : Schema, a.structuralKey = b.structuralKey ↔ a.normal = b.normal) ∧
      ∀ schemas, dedupe schemas = firstsOf schemas ∧ dedupe (dedupe schemas) = dedupe schemas ∧
        dedupe (schemas ++ schemas) = dedupe schemas :=
  ⟨fun _ _ => structuralKey_eq_iff, fun schemas =>
    ⟨dedupe_eq_firstsOf schemas, dedupe_dedupe schemas, dedupe_append_self schemas⟩⟩

end RouteScribe.Schema
