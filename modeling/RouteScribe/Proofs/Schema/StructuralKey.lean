import RouteScribe.Proofs.Document.KeyText
import RouteScribe.Schema.Basic

/-!
# What the structural key of a schema determines

`Schema.normal` puts the properties of every object in the order of their names and reads an empty
format as none.  Two schemas with the same structural key have the same normal form
(`normal_eq_of_structuralKey_eq`), so `dedupe` never drops a schema that differs from the ones it
keeps in anything but the order of properties (`exists_mem_dedupe`).

A key is the text of a document value, and by `sorted_eq_of_orderlessKey_eq` it determines the value
up to the order of fields.  What is left is to read a schema off its fields: the kind of a node shows
in its `type`, in `additionalProperties` and in `anyOf`, and every part stands under a name of its
own.
-/

namespace RouteScribe.Schema

open Document (Value sortedFields sortedItems)

/-! ## Normal forms -/

/-- The order of entries by their names. -/
def byName {α : Type} (a b : String × α) : Bool := a.1 < b.1 || a.1 == b.1

mutual

/-- The schema with the properties of every object in the order of their names, and without empty
formats. -/
def normal : Schema → Schema
  | .primitive kind format n => .primitive kind (format.filter (· ≠ "")) n
  | .array items n => .array items.normal n
  | .object properties required n => .object ((normalProperties properties).mergeSort byName) required n
  | .map values n => .map values.normal n
  | .union variants n => .union (normalVariants variants) n
  | .unparsed description n => .unparsed description n

def normalProperties : List (String × Schema) → List (String × Schema)
  | [] => []
  | (name, s) :: rest => (name, s.normal) :: normalProperties rest

def normalVariants : List Schema → List Schema
  | [] => []
  | s :: rest => s.normal :: normalVariants rest

end

lemma normalProperties_eq_map (ps : List (String × Schema)) :
    normalProperties ps = ps.map fun p => (p.1, p.2.normal) := by
  induction ps with
  | nil => rfl
  | cons p rest ih => exact congrArg ((p.1, p.2.normal) :: ·) ih

lemma propertyValues_eq_map (ps : List (String × Schema)) :
    propertyValues ps = ps.map fun p => (p.1, p.2.toValue) := by
  induction ps with
  | nil => rfl
  | cons p rest ih => exact congrArg ((p.1, p.2.toValue) :: ·) ih

lemma sortedFields_eq_map (fields : List (String × Value)) :
    sortedFields fields = fields.map fun f => (f.1, f.2.sorted) := by
  induction fields with
  | nil => rfl
  | cons f rest ih => exact congrArg ((f.1, f.2.sorted) :: ·) ih

lemma sortedItems_eq_map (items : List Value) : sortedItems items = items.map Value.sorted := by
  induction items with
  | nil => rfl
  | cons v rest ih => exact congrArg (v.sorted :: ·) ih

lemma variantValues_eq_map (vs : List Schema) : variantValues vs = vs.map toValue := by
  induction vs with
  | nil => rfl
  | cons s rest ih => exact congrArg (s.toValue :: ·) ih

lemma normalVariants_eq_map (vs : List Schema) : normalVariants vs = vs.map normal := by
  induction vs with
  | nil => rfl
  | cons s rest ih => exact congrArg (s.normal :: ·) ih

/-! ## Fields of a schema -/

/-- The fields of a schema as it stands in a document. -/
def fields (s : Schema) : List (String × Value) :=
  match s.toValue with
  | .object fs => fs
  | _ => []

lemma toValue_eq_object (s : Schema) : s.toValue = .object s.fields := by
  cases s <;> simp [fields, toValue]

section

variable (n : Bool)

lemma fields_primitive (kind : PrimitiveKind) (format : Option String) :
    (primitive kind format n).fields = ([("type", .text kind.name)] : List (String × Value)) ++
      (match format with
        | some f => if f = "" then [] else [("format", .text f)]
        | none => [] : List (String × Value)) ++ nullableField n := rfl

lemma fields_array (items : Schema) : (array items n).fields =
    [("type", .text "array"), ("items", items.toValue)] ++ nullableField n := rfl

lemma fields_object (ps : List (String × Schema)) (required : List String) :
    (object ps required n).fields =
      ([("type", .text "object"), ("properties", .object (propertyValues ps))] :
          List (String × Value)) ++
        (if required.isEmpty then [] else [("required", .list (required.map .text))]) ++
        nullableField n := rfl

lemma fields_map (values : Schema) : (map values n).fields =
    [("type", .text "object"), ("additionalProperties", values.toValue)] ++ nullableField n := rfl

lemma fields_union (variants : List Schema) :
    (union variants n).fields = [("anyOf", .list (variantValues variants))] ++ nullableField n := rfl

lemma fields_unparsed (description : Option String) : (unparsed description n).fields =
    (match description with
      | some d => [("description", .text d)]
      | none => []) ++ nullableField n := rfl

end

lemma sorted_text (s : String) : (Value.text s).sorted = .text s := rfl

lemma sorted_flag (b : Bool) : (Value.flag b).sorted = .flag b := rfl

lemma sorted_texts (ss : List String) : (Value.list (ss.map .text)).sorted = .list (ss.map .text) := by
  have htexts : sortedItems (ss.map Value.text) = ss.map Value.text := by
    rw [sortedItems_eq_map, List.map_map]
    exact List.map_congr_left fun s _ => sorted_text s
  exact congrArg Value.list htexts

/-- A field of the sorted form of a schema. -/
def HasField (s : Schema) (name : String) (v : Value) : Prop := (name, v) ∈ sortedFields s.fields

/-- Schemas whose sorted forms are equal have the same fields. -/
lemma hasField_congr {a b : Schema} (h : a.toValue.sorted = b.toValue.sorted) (name : String)
    (v : Value) : a.HasField name v ↔ b.HasField name v := by
  rw [toValue_eq_object, toValue_eq_object, Value.sorted, Value.sorted] at h
  have hsorted := Value.object.inj h
  rw [HasField, HasField, ← List.mem_mergeSort, hsorted, List.mem_mergeSort]

section

variable {name : String} {v : Value}

lemma hasField_primitive {kind : PrimitiveKind} {format : Option String} {n : Bool} :
    (primitive kind format n).HasField name v ↔
      (name = "type" ∧ v = .text kind.name) ∨
      (∃ f, format = some f ∧ f ≠ "" ∧ name = "format" ∧ v = .text f) ∨
      (n = true ∧ name = "nullable" ∧ v = .flag true) := by
  cases format with
  | none =>
    cases n <;>
      simp [HasField, fields_primitive, nullableField, sortedFields_eq_map, sorted_text, sorted_flag]
  | some f =>
    by_cases hf : f = "" <;> cases n <;>
      simp [HasField, fields_primitive, nullableField, sortedFields_eq_map, sorted_text, sorted_flag,
        hf]

lemma hasField_array {items : Schema} {n : Bool} :
    (array items n).HasField name v ↔
      (name = "type" ∧ v = .text "array") ∨ (name = "items" ∧ v = items.toValue.sorted) ∨
      (n = true ∧ name = "nullable" ∧ v = .flag true) := by
  cases n <;>
    simp [HasField, fields_array, nullableField, sortedFields_eq_map, sorted_text, sorted_flag]

lemma hasField_object {properties : List (String × Schema)} {required : List String} {n : Bool} :
    (object properties required n).HasField name v ↔
      (name = "type" ∧ v = .text "object") ∨
      (name = "properties" ∧ v = (Value.object (propertyValues properties)).sorted) ∨
      (required ≠ [] ∧ name = "required" ∧ v = .list (required.map .text)) ∨
      (n = true ∧ name = "nullable" ∧ v = .flag true) := by
  cases required with
  | nil =>
    cases n <;>
      simp [HasField, fields_object, nullableField, sortedFields_eq_map, sorted_text, sorted_flag]
  | cons r rs =>
    cases n <;>
      simp [HasField, fields_object, nullableField, sortedFields_eq_map, sorted_text, sorted_flag,
        sorted_texts, @eq_comm _ name, @eq_comm _ v, -List.map_cons]

lemma hasField_map {values : Schema} {n : Bool} :
    (map values n).HasField name v ↔
      (name = "type" ∧ v = .text "object") ∨
      (name = "additionalProperties" ∧ v = values.toValue.sorted) ∨
      (n = true ∧ name = "nullable" ∧ v = .flag true) := by
  cases n <;>
    simp [HasField, fields_map, nullableField, sortedFields_eq_map, sorted_text, sorted_flag]

lemma hasField_union {variants : List Schema} {n : Bool} :
    (union variants n).HasField name v ↔
      (name = "anyOf" ∧ v = (Value.list (variantValues variants)).sorted) ∨
      (n = true ∧ name = "nullable" ∧ v = .flag true) := by
  cases n <;> simp [HasField, fields_union, nullableField, sortedFields_eq_map, sorted_flag]

lemma hasField_unparsed {description : Option String} {n : Bool} :
    (unparsed description n).HasField name v ↔
      (∃ d, description = some d ∧ name = "description" ∧ v = .text d) ∨
      (n = true ∧ name = "nullable" ∧ v = .flag true) := by
  cases description <;> cases n <;>
    simp [HasField, fields_unparsed, nullableField, sortedFields_eq_map, sorted_text, sorted_flag]

end

lemma hasField_nullable (s : Schema) : s.HasField "nullable" (.flag true) ↔ s.nullable = true := by
  cases s <;>
    simp [hasField_primitive, hasField_array, hasField_object, hasField_map, hasField_union,
      hasField_unparsed, nullable]

/-! ## Schemas from their fields -/

lemma nullable_congr {a b : Schema} (h : a.toValue.sorted = b.toValue.sorted) :
    a.nullable = b.nullable := by
  have hfield := hasField_congr h "nullable" (.flag true)
  rw [hasField_nullable, hasField_nullable] at hfield
  exact Bool.eq_iff_iff.2 hfield

lemma eq_primitive_of_hasField {b : Schema} {kind : PrimitiveKind}
    (h : b.HasField "type" (.text kind.name)) : ∃ format n, b = .primitive kind format n := by
  cases b with
  | primitive kind' format n =>
    have hkind : kind = kind' := by
      simp only [hasField_primitive, Value.text.injEq] at h
      revert h
      cases kind <;> cases kind' <;> simp [PrimitiveKind.name]
    exact ⟨format, n, by rw [hkind]⟩
  | array items n => cases kind <;> simp [hasField_array, PrimitiveKind.name] at h
  | object ps rs n => cases kind <;> simp [hasField_object, PrimitiveKind.name] at h
  | map values n => cases kind <;> simp [hasField_map, PrimitiveKind.name] at h
  | union vs n => simp [hasField_union] at h
  | unparsed d n => simp [hasField_unparsed] at h

lemma eq_array_of_hasField {b : Schema} {v : Value} (h : b.HasField "items" v) :
    ∃ items n, b = .array items n ∧ v = items.toValue.sorted := by
  cases b <;> simp_all [hasField_primitive, hasField_array, hasField_object, hasField_map,
    hasField_union, hasField_unparsed]

lemma eq_object_of_hasField {b : Schema} {v : Value} (h : b.HasField "properties" v) :
    ∃ ps rs n, b = .object ps rs n ∧ v = (Value.object (propertyValues ps)).sorted := by
  cases b <;> simp_all [hasField_primitive, hasField_array, hasField_object, hasField_map,
    hasField_union, hasField_unparsed]

lemma eq_map_of_hasField {b : Schema} {v : Value} (h : b.HasField "additionalProperties" v) :
    ∃ values n, b = .map values n ∧ v = values.toValue.sorted := by
  cases b <;> simp_all [hasField_primitive, hasField_array, hasField_object, hasField_map,
    hasField_union, hasField_unparsed]

lemma eq_union_of_hasField {b : Schema} {v : Value} (h : b.HasField "anyOf" v) :
    ∃ vs n, b = .union vs n ∧ v = (Value.list (variantValues vs)).sorted := by
  cases b <;> simp_all [hasField_primitive, hasField_array, hasField_object, hasField_map,
    hasField_union, hasField_unparsed]

/-- What is left when a schema has neither a `type` nor alternatives. -/
lemma eq_unparsed_of_not_hasField {b : Schema} (htype : ∀ v, ¬ b.HasField "type" v)
    (hanyOf : ∀ v, ¬ b.HasField "anyOf" v) : ∃ d n, b = .unparsed d n := by
  cases b <;> simp_all [hasField_primitive, hasField_array, hasField_object, hasField_map,
    hasField_union, hasField_unparsed]

lemma filter_format_congr {kind : PrimitiveKind} {f g : Option String} {n m : Bool}
    (h : (primitive kind f n).toValue.sorted = (primitive kind g m).toValue.sorted) :
    f.filter (· ≠ "") = g.filter (· ≠ "") := by
  have hformat (x : String) : f = some x ∧ x ≠ "" ↔ g = some x ∧ x ≠ "" := by
    simpa [hasField_primitive] using hasField_congr h "format" (.text x)
  ext x
  simpa [Option.filter_eq_some_iff] using hformat x

lemma required_congr {ps qs : List (String × Schema)} {rs ts : List String} {n m : Bool}
    (h : (object ps rs n).toValue.sorted = (object qs ts m).toValue.sorted) : rs = ts := by
  have hlist (v : Value) : rs ≠ [] ∧ v = .list (rs.map .text) ↔ ts ≠ [] ∧ v = .list (ts.map .text) := by
    simpa [hasField_object] using hasField_congr h "required" v
  have htexts {xs ys : List String} (h : xs.map Value.text = ys.map Value.text) : xs = ys :=
    List.map_injective_iff.2 (fun _ _ h => Value.text.inj h) h
  by_cases hr : rs = []
  · by_contra hne
    have ht : ts ≠ [] := fun ht => hne (by rw [hr, ht])
    exact ((hlist _).2 ⟨ht, rfl⟩).1 hr
  · exact htexts (Value.list.inj ((hlist _).1 ⟨hr, rfl⟩).2)

lemma description_congr {d e : Option String} {n m : Bool}
    (h : (unparsed d n).toValue.sorted = (unparsed e m).toValue.sorted) : d = e := by
  ext x
  simpa [hasField_unparsed] using hasField_congr h "description" (.text x)

/-- Sorting entries by name does not look at what stands under the names. -/
lemma map_mergeSort_byName {α β : Type} (f : α → β) (l : List (String × α)) :
    (l.mergeSort byName).map (fun p => (p.1, f p.2))
      = (l.map fun p => (p.1, f p.2)).mergeSort byName :=
  List.map_mergeSort fun _ _ _ _ => rfl

lemma sorted_propertyValues (ps : List (String × Schema)) :
    (Value.object (propertyValues ps)).sorted
      = .object ((ps.mergeSort byName).map fun p => (p.1, p.2.toValue.sorted)) := by
  rw [Value.sorted, sortedFields_eq_map, propertyValues_eq_map, List.map_map]
  exact congrArg Value.object (map_mergeSort_byName (fun s => s.toValue.sorted) ps).symm

/-- Lists with the same images under one function have the same images under a second one, if the
second is determined by the first. -/
lemma map_eq_map_of_map_eq_map {α β γ : Type} {f : α → β} {g : α → γ} :
    ∀ {xs ys : List α}, (∀ x ∈ xs, ∀ y ∈ ys, f x = f y → g x = g y) → xs.map f = ys.map f →
      xs.map g = ys.map g
  | [], [], _, _ => rfl
  | [], _ :: _, _, h => by simp at h
  | _ :: _, [], _, h => by simp at h
  | x :: xs, y :: ys, hfg, h => by
    simp only [List.map_cons, List.cons.injEq] at h ⊢
    refine ⟨hfg x (by simp) y (by simp) h.1, map_eq_map_of_map_eq_map ?_ h.2⟩
    intro x' hx' y' hy'
    exact hfg x' (by simp [hx']) y' (by simp [hy'])

/-- Schemas whose sorted forms are equal have the same normal form. -/
theorem normal_eq_of_sorted_eq (a b : Schema) (h : a.toValue.sorted = b.toValue.sorted) :
    a.normal = b.normal := by
  have hfield := hasField_congr h
  have hnull := nullable_congr h
  match a with
  | .primitive kind format n =>
    have htype := (hfield "type" (.text kind.name)).1 (by simp [hasField_primitive])
    obtain ⟨format', n', rfl⟩ := eq_primitive_of_hasField htype
    simp only [nullable] at hnull
    rw [normal, normal, filter_format_congr h, hnull]
  | .array items n =>
    have hitems := (hfield "items" items.toValue.sorted).1 (by simp [hasField_array])
    obtain ⟨items', n', rfl, heq⟩ := eq_array_of_hasField hitems
    simp only [nullable] at hnull
    rw [normal, normal, normal_eq_of_sorted_eq items items' heq, hnull]
  | .object ps rs n =>
    have hprops := (hfield "properties" _).1 (hasField_object.2 (.inr (.inl ⟨rfl, rfl⟩)))
    obtain ⟨qs, ts, n', rfl, heq⟩ := eq_object_of_hasField hprops
    simp only [nullable] at hnull
    rw [sorted_propertyValues, sorted_propertyValues, Value.object.injEq] at heq
    have hnormal : (ps.mergeSort byName).map (fun p => (p.1, p.2.normal))
        = (qs.mergeSort byName).map fun p => (p.1, p.2.normal) := by
      refine map_eq_map_of_map_eq_map (fun p hp q _ hpq => ?_) heq
      have hmem : p ∈ ps := List.mem_mergeSort.1 hp
      obtain ⟨hname, hvalue⟩ := Prod.mk.inj hpq
      rw [hname, normal_eq_of_sorted_eq p.2 q.2 hvalue]
    rw [normal, normal, normalProperties_eq_map, normalProperties_eq_map, ← map_mergeSort_byName,
      ← map_mergeSort_byName, hnormal, required_congr h, hnull]
  | .map values n =>
    have hvalues := (hfield "additionalProperties" values.toValue.sorted).1 (by simp [hasField_map])
    obtain ⟨values', n', rfl, heq⟩ := eq_map_of_hasField hvalues
    simp only [nullable] at hnull
    rw [normal, normal, normal_eq_of_sorted_eq values values' heq, hnull]
  | .union vs n =>
    have hvariants := (hfield "anyOf" _).1 (hasField_union.2 (.inl ⟨rfl, rfl⟩))
    obtain ⟨ws, n', rfl, heq⟩ := eq_union_of_hasField hvariants
    simp only [nullable] at hnull
    rw [Value.sorted, Value.sorted, Value.list.injEq, sortedItems_eq_map, sortedItems_eq_map,
      variantValues_eq_map, variantValues_eq_map, List.map_map, List.map_map] at heq
    have hnormal : vs.map normal = ws.map normal :=
      map_eq_map_of_map_eq_map (fun s hs t _ hst => normal_eq_of_sorted_eq s t hst) heq
    rw [normal, normal, normalVariants_eq_map, normalVariants_eq_map, hnormal, hnull]
  | .unparsed d n =>
    obtain ⟨d', n', rfl⟩ := eq_unparsed_of_not_hasField (b := b)
      (fun v hv => by simpa [hasField_unparsed] using (hfield "type" v).2 hv)
      (fun v hv => by simpa [hasField_unparsed] using (hfield "anyOf" v).2 hv)
    simp only [nullable] at hnull
    rw [normal, normal, description_congr h, hnull]
termination_by sizeOf a
decreasing_by
  · simp +arith
  · have hsize := List.sizeOf_lt_of_mem hmem
    obtain ⟨name, s⟩ := p
    simp only [Prod.mk.sizeOf_spec, object.sizeOf_spec] at hsize ⊢
    omega
  · simp +arith
  · have hsize := List.sizeOf_lt_of_mem hs
    simp only [union.sizeOf_spec]
    omega

/-! ## Keys -/

lemma sharedValues_texts (xs : List String) : Value.sharedInItems (xs.map Value.text) = [] := by
  induction xs with
  | nil => rfl
  | cons x xs ih => simp [Value.sharedInItems, Value.sharedValues, ih]

mutual

/-- Schemas stand in a document without shared parts. -/
theorem sharedValues_toValue : ∀ s : Schema, s.toValue.sharedValues = []
  | .primitive kind none n => by
    cases n <;> simp [toValue, nullableField, Value.sharedValues, Value.sharedInFields]
  | .primitive kind (some f) n => by
    by_cases hf : f = "" <;> cases n <;>
      simp [toValue, nullableField, Value.sharedValues, Value.sharedInFields, hf]
  | .array items n => by
    cases n <;> simp [toValue, nullableField, Value.sharedValues, Value.sharedInFields,
      sharedValues_toValue items]
  | .object ps rs n => by
    cases rs <;> cases n <;> simp [toValue, nullableField, Value.sharedValues,
      Value.sharedInFields, Value.sharedInItems, sharedInFields_propertyValues ps,
      sharedValues_texts]
  | .map values n => by
    cases n <;> simp [toValue, nullableField, Value.sharedValues, Value.sharedInFields,
      sharedValues_toValue values]
  | .union vs n => by
    cases n <;> simp [toValue, nullableField, Value.sharedValues, Value.sharedInFields,
      sharedInItems_variantValues vs]
  | .unparsed d n => by
    cases d <;> cases n <;>
      simp [toValue, nullableField, Value.sharedValues, Value.sharedInFields]

theorem sharedInFields_propertyValues : ∀ ps : List (String × Schema),
    Value.sharedInFields (propertyValues ps) = []
  | [] => rfl
  | (_, s) :: rest => by
    simp [propertyValues, Value.sharedInFields, sharedValues_toValue s,
      sharedInFields_propertyValues rest]

theorem sharedInItems_variantValues : ∀ vs : List Schema,
    Value.sharedInItems (variantValues vs) = []
  | [] => rfl
  | s :: rest => by
    simp [variantValues, Value.sharedInItems, sharedValues_toValue s,
      sharedInItems_variantValues rest]

end

/-- Schemas with the same structural key are equal up to the order of properties. -/
theorem normal_eq_of_structuralKey_eq {a b : Schema} (h : a.structuralKey = b.structuralKey) :
    a.normal = b.normal :=
  normal_eq_of_sorted_eq a b
    (Document.sorted_eq_of_orderlessKey_eq (sharedValues_toValue a) (sharedValues_toValue b) h)

lemma mem_of_mem_dedupeFrom {s : Schema} {seen : List String} {schemas : List Schema}
    (h : s ∈ dedupeFrom seen schemas) : s ∈ schemas := by
  fun_induction dedupeFrom seen schemas with
  | case1 => exact h
  | case2 seen t rest hseen ih => exact List.mem_cons_of_mem _ (ih h)
  | case3 seen t rest hseen ih =>
    rcases List.mem_cons.1 h with rfl | hrest
    · exact List.mem_cons_self
    · exact List.mem_cons_of_mem _ (ih hrest)

lemma mem_of_mem_dedupe {s : Schema} {schemas : List Schema} (h : s ∈ dedupe schemas) :
    s ∈ schemas := mem_of_mem_dedupeFrom h

lemma exists_mem_dedupeFrom {s : Schema} {seen : List String} {schemas : List Schema}
    (h : s ∈ schemas) (hs : s.structuralKey ∉ seen) :
    ∃ t ∈ dedupeFrom seen schemas, t.structuralKey = s.structuralKey := by
  fun_induction dedupeFrom seen schemas with
  | case1 => simp at h
  | case2 seen t rest hseen ih =>
    rcases List.mem_cons.1 h with rfl | hrest
    · exact absurd hseen hs
    · exact ih hrest hs
  | case3 seen t rest hseen ih =>
    by_cases hkey : s.structuralKey = t.structuralKey
    · exact ⟨t, List.mem_cons_self, hkey.symm⟩
    · rcases List.mem_cons.1 h with rfl | hrest
      · exact absurd rfl hkey
      · obtain ⟨u, hu, hukey⟩ := ih hrest (by simp [hkey, hs])
        exact ⟨u, List.mem_cons_of_mem _ hu, hukey⟩

/-- What `dedupe` drops is equal, up to the order of properties, to something it keeps. -/
theorem exists_mem_dedupe {s : Schema} {schemas : List Schema} (h : s ∈ schemas) :
    ∃ t ∈ dedupe schemas, t.normal = s.normal := by
  obtain ⟨t, ht, hkey⟩ := exists_mem_dedupeFrom h List.not_mem_nil
  exact ⟨t, ht, normal_eq_of_structuralKey_eq hkey⟩

end RouteScribe.Schema
