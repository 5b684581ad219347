import RouteScribe.Proofs.Schema.TypeText
import RouteScribe.Proofs.Typing.Descriptions

/-!
# Types that are read back as they are

A type has two schemas: one from the type itself, and one from the text it is displayed as.  The text
says less, so in general the second schema is poorer.  For the types of this module the two are the
same: primitive types, names, lists, maps with string keys, and objects without a name whose members
are lists of primitive types and names (`Written`).  Members of such objects may not hold objects,
because the text is cut at every separator, whatever it stands in.

The properties of an object may still have to be worked out when it is displayed or described for the
first time.  `Unnamed` says what comes out of that, and both ways to ask for it are covered.
-/

namespace RouteScribe.Typing

open Filter Infer
open scoped Schema.TypeText
open Schema.TypeText (IsTypeName IsMemberName HasNoSeparator Reads objectText reads_name reads_object
  reads_of_view isTrimmed_of_forall isTypeName_of_isWordPart describe_primitive describe_undefined)

/-- Primitive types and names, and lists of these. -/
inductive Ty.IsPlain : Ty → Prop
  | primitive {p : Primitive} : p ≠ .bigint → IsPlain (.primitive p)
  | name {name : String} : IsTypeName name → IsPlain (.named name [])
  | array {t : Ty} : IsPlain t → IsPlain (.array t)

/-- An object without a name that has the properties `ps` once they are worked out, be it asked for
them while it is displayed or not; after that the store is `s'`. -/
structure Unnamed (c : Context) (s : Store) (id : Nat) (ps : List Property) (s' : Store) : Prop where
  name : ((s.objects[id]?).getD ⟨none, .known []⟩).name = none
  asked : Gives (fun d => answer d _ (.properties (.object id))) c s (.ok (some ps), s')
  displayed : Gives (fun d => answer d _ (.properties (.object id))) (c.inDisplay id) s
    (.ok (some ps), s')
  known : s'.objects[id]? = some ⟨none, .known ps⟩

/-- `Written c s t s'`: the type `t` is put together from primitive types and names by lists and maps,
and by objects without a name that have plain members; `s'` is the store once its properties are worked
out. -/
inductive Written (c : Context) (s : Store) : Ty → Store → Prop
  | plain {t : Ty} : t.IsPlain → Written c s t s
  | array {t : Ty} {s' : Store} : Written c s t s' → Written c s (.array t) s'
  | map {t : Ty} {s' : Store} : Written c s t s' → Written c s (.map t) s'
  | object {id : Nat} {ps : List Property} {s' : Store} : Unnamed c s id ps s' →
    (∀ p ∈ ps, p.optional = false ∧ IsMemberName p.name ∧ p.type.IsPlain) →
    Written c s (.object id) s'

section

variable {c : Context} {s s' : Store} {t : Ty} {id : Nat} {ps : List Property}

/-- An object whose properties are known. -/
lemma unnamed_of_known (h : s.objects[id]? = some ⟨none, .known ps⟩) : Unnamed c s id ps s := by
  have hgives (c : Context) : Gives (fun d => answer d _ (.properties (.object id))) c s
      (.ok (some ps), s) := by
    refine .answer (.of_exec fun d e => ?_)
    simp only [answerWith, objectProperties]
    rw [exec_bind_ok (exec_objectInfo id), h]
    rfl
  exact ⟨by rw [h]; rfl, hgives c, hgives _, h⟩

/-- Once they are worked out, the properties are the same, and the store stays as it is. -/
lemma Unnamed.again (h : Unnamed c s id ps s') {s₀ : Store} (hs₀ : s₀ = s ∨ s₀ = s') :
    Unnamed c s₀ id ps s' := by
  rcases hs₀ with rfl | rfl
  · exact h
  · exact unnamed_of_known h.known

/-- A type of this kind is no union, so it is displayed without parentheses in a list. -/
lemma Written.unionMembers? (h : Written c s t s') : t.unionMembers? = none := by
  cases h with
  | plain h => cases h <;> rfl
  | _ => rfl

/-! ## Display -/

lemma gives_display_array {text : String} (hunion : t.unionMembers? = none)
    (h : Gives (fun d => answer d _ (.display t)) c s (.ok text, s')) :
    Gives (fun d => answer d _ (.display (.array t))) c s (.ok (text ++ "[]"), s') := by
  refine .answer (h.bind ?_)
  rw [hunion]
  exact gives_pure _

lemma gives_display_map {text : String}
    (h : Gives (fun d => answer d _ (.display t)) c s (.ok text, s')) :
    Gives (fun d => answer d _ (.display (.map t))) c s
      (.ok ("Record<string, " ++ text ++ ">"), s') :=
  .answer (h.bind (gives_pure _))

/-- An object is displayed by its members, each by its type. -/
lemma gives_display_object {text : Property → String} (hobject : Unnamed c s id ps s')
    (hseen : id ∉ c.displaying) (hps : ∀ p ∈ ps, p.optional = false)
    (h : ∀ p ∈ ps, Gives (fun d => answer d _ (.display p.type)) (c.inDisplay id) s'
      (.ok (text p), s')) :
    Gives (fun d => answer d _ (.display (.object id))) c s
      (.ok (objectText (ps.map fun p => (p.name, text p))), s') := by
  have hmember : ∀ p ∈ ps, Gives (fun d => do
      let type ← answer d _ (.display (← presentType (answer d) p))
      return p.name ++ (if p.optional then "?" else "") ++ ": " ++ type ++ ";") (c.inDisplay id) s'
      (.ok (p.name ++ ": " ++ text p ++ ";"), s') := by
    intro p hp
    have hpresent : Gives (fun d => presentType (answer d) p) (c.inDisplay id) s' (.ok p.type, s') := by
      simp only [presentType, hps p hp]
      exact gives_pure _
    simp only [hps p hp, Bool.false_eq_true, if_false, String.append_empty]
    exact hpresent.bind ((h p hp).bind (gives_pure _))
  have hinside : Gives (fun d => do
      displayProperties (answer d) (← propertiesOf (answer d) (.object id))) (c.inDisplay id) s
      (.ok (objectText (ps.map fun p => (p.name, text p))), s') := by
    have hproperties : Gives (fun d => propertiesOf (answer d) (.object id)) (c.inDisplay id) s
        (.ok ps, s') := hobject.displayed.bind (gives_pure _)
    have htext : objectText (ps.map fun p => (p.name, text p)) =
        if (ps.map fun p => p.name ++ ": " ++ text p ++ ";").isEmpty then "\x7b\x7d"
        else "\x7b " ++ " ".intercalate (ps.map fun p => p.name ++ ": " ++ text p ++ ";") ++ " \x7d" := by
      rw [objectText, List.map_map, List.isEmpty_map, List.isEmpty_map]
      rfl
    rw [htext]
    exact hproperties.bind ((gives_mapM hmember).bind (gives_pure _))
  refine .answer (Gives.bind (.of_exec fun d e => exec_objectInfo id) ?_)
  rw [hobject.name]
  refine Gives.bind_read ?_ fun d e => rfl
  simp only [List.contains_iff_mem, hseen, if_false]
  exact hinside.changed fun e => rfl

/-! ## Both readings -/

/-- A text is read as a schema, and a type is displayed as the text and described by the schema. -/
structure Agrees (c : Context) (s : Store) (above : List Nat) (t : Ty) (s' : Store) (text : String)
    (schema : Schema) : Prop where
  reads : Reads text schema
  displayed : Gives (fun d => answer d _ (.display t)) c s (.ok text, s')
  described : Describes c s above t schema s'

lemma Agrees.array {above : List Nat} {text : String} {schema : Schema}
    (h : Agrees c s above t s' text schema) (hunion : t.unionMembers? = none) :
    Agrees c s above (.array t) s' (text ++ "[]") (.array schema false) where
  reads := h.reads.list
  displayed := gives_display_array hunion h.displayed
  described := Sees.describes_array (.of_forall fun _ => rfl) h.described

lemma Agrees.map {above : List Nat} {text : String} {schema : Schema}
    (h : Agrees c s above t s' text schema) :
    Agrees c s above (.map t) s' ("Record<string, " ++ text ++ ">") (.map schema false) where
  reads := h.reads.record
  displayed := gives_display_map h.displayed
  described := Sees.describes_map (.of_forall fun _ => rfl) h.described

end

/-! ## Primitive types -/

/-- The schema of a primitive type. -/
def Primitive.schema : Primitive → Schema
  | .string => .primitive .string none false
  | .number | .bigint => .primitive .number none false
  | .boolean => .primitive .boolean none false
  | .null => .primitive .null none false
  | .undefined | .void => .unparsed none true
  | p => .unparsed (some ("Unparsed type: " ++ p.name)) false

lemma hasNoSeparator_name (p : Primitive) : HasNoSeparator p.name.toList := by
  unfold HasNoSeparator
  cases p <;> decide

/-- The text says what a primitive type is, `bigint` aside: that is read as a name. -/
lemma reads_primitive {p : Primitive} (h : p ≠ .bigint) : Reads p.name p.schema := by
  have htrimmed : Schema.TypeText.IsTrimmed p.name.toList :=
    isTrimmed_of_forall (by cases p <;> decide) (by cases p <;> decide)
  cases p
  case bigint => exact absurd rfl h
  case undefined | void => exact reads_of_view htrimmed fun _ => describe_undefined rfl
  case string | number | boolean | null => exact reads_of_view htrimmed fun _ => describe_primitive rfl
  all_goals exact reads_name ⟨by decide, by decide, by decide, by decide⟩

lemma describes_primitive (c : Context) (s : Store) (above : List Nat) (p : Primitive) :
    Describes c s above (.primitive p) p.schema s := by
  have hother (h : (Ty.primitive p).isOpaque = true) : Sees c s (.primitive p) (.other p.name) s :=
    sees_of_isOpaque h (.answer (gives_pure _))
  cases p
  case string | number | bigint | boolean | null =>
    exact Sees.describes_primitive (.of_forall fun _ => rfl)
  case undefined | void => exact Sees.describes_undefined (.of_forall fun _ => rfl)
  all_goals exact (hother rfl).describes_other

/-! ## Both readings -/

section

variable {c : Context} {s s' : Store} {t : Ty} {root : Source.Cursor}

/-- A plain type is read back in every store, and its text holds no separator. -/
lemma Ty.IsPlain.agrees (h : t.IsPlain) : ∃ text schema, HasNoSeparator text.toList ∧
    ∀ c s above, Agrees c s above t s text schema := by
  induction h with
  | @primitive p hp =>
    exact ⟨p.name, p.schema, hasNoSeparator_name p, fun c s above =>
      ⟨reads_primitive hp, .answer (gives_pure _), describes_primitive c s above p⟩⟩
  | @name name hname =>
    have hdisplayed (c : Context) (s : Store) :
        Gives (fun d => answer d _ (.display (.named name []))) c s (.ok name, s) :=
      .answer (gives_pure _)
    exact ⟨name, _, hname.hasNoSeparator, fun c s above =>
      ⟨reads_name hname, hdisplayed c s, (sees_of_isOpaque rfl (hdisplayed c s)).describes_other⟩⟩
  | @array t ht ih =>
    obtain ⟨text, schema, hseparators, hagrees⟩ := ih
    have hunion : t.unionMembers? = none := by cases ht <;> rfl
    refine ⟨text ++ "[]", .array schema false, fun d hd => ?_, fun c s above =>
      (hagrees c s above).array hunion⟩
    rw [String.toList_append, List.mem_append] at hd
    rcases hd with hd | hd
    · exact hseparators d hd
    · have hbrackets : ∀ d ∈ "[]".toList, d ≠ ';' ∧ d ≠ ',' := by decide
      exact hbrackets d hd

/-- Both readings of a type that is put together in this way agree, before its properties were worked
out and after. -/
lemma Written.agrees (h : Written c s t s') (hc : c.displaying = []) :
    ∃ text schema, ∀ s₀, s₀ = s ∨ s₀ = s' → Agrees c s₀ [] t s' text schema := by
  induction h with
  | plain h =>
    obtain ⟨text, schema, -, hagrees⟩ := h.agrees
    refine ⟨text, schema, fun s₀ hs₀ => ?_⟩
    rcases hs₀ with rfl | rfl <;> exact hagrees c _ []
  | array h ih =>
    obtain ⟨text, schema, hagrees⟩ := ih
    exact ⟨_, _, fun s₀ hs₀ => (hagrees s₀ hs₀).array h.unionMembers?⟩
  | map _ ih =>
    obtain ⟨text, schema, hagrees⟩ := ih
    exact ⟨_, _, fun s₀ hs₀ => (hagrees s₀ hs₀).map⟩
  | @object id ps s' hobject hps =>
    have hmembers : ∀ p ∈ ps, ∃ text schema, HasNoSeparator text.toList ∧
        ∀ c s above, Agrees c s above p.type s text schema := fun p hp => (hps p hp).2.2.agrees
    choose! text schema hseparators hagrees using hmembers
    refine ⟨objectText (ps.map fun p => (p.name, text p)),
      .ofProperties (ps.map fun p => (p.name, p.optional, schema p)), fun s₀ hs₀ => ⟨?_, ?_, ?_⟩⟩
    · have hread := reads_object (ps.map fun p => (p.name, text p, schema p)) fun m hm => by
        obtain ⟨p, hp, rfl⟩ := List.mem_map.1 hm
        exact ⟨(hps p hp).2.1, (hagrees p hp c s []).reads, hseparators p hp⟩
      simp only [List.map_map, Function.comp_def] at hread
      have hoptional : ps.map (fun p => (p.name, p.optional, schema p)) =
          ps.map fun p => (p.name, false, schema p) :=
        List.map_congr_left fun p hp => by rw [(hps p hp).1]
      rwa [hoptional]
    · exact gives_display_object (hobject.again hs₀) (by rw [hc]; exact List.not_mem_nil)
        (fun p hp => (hps p hp).1) fun p hp => (hagrees p hp (c.inDisplay id) s' []).displayed
    · exact (sees_object (hobject.again hs₀).asked).describes_object List.not_mem_nil
        fun p hp => (hagrees p hp c s' [id]).described

/-- **The text of a type gives the schema of the type.**  A type that is put together from primitive
types and names by lists and maps with string keys, and by objects without a name that have plain
members, is displayed as a text that is read as the schema of the type, before its properties were
worked out and after. -/
theorem schema_of_display (h : Written (.ofRoot 0 root) s t s') :
    ∃ text schema, Schema.ofTypeText? text = some schema ∧
      ∀ s₀, s₀ = s ∨ s₀ = s' → ∀ᶠ d in atTop, (display t).runTo d root s₀ = (.ok text, s') ∧
        (schemaOf t).runTo d root s₀ = (.ok schema, s') := by
  obtain ⟨text, schema, hagrees⟩ := h.agrees rfl
  refine ⟨text, schema, (hagrees s (.inl rfl)).reads.ofTypeText?, fun s₀ hs₀ => ?_⟩
  filter_upwards [(hagrees s₀ hs₀).displayed, (hagrees s₀ hs₀).described.schemaOf] with d htext hschema
  exact ⟨htext d, hschema⟩

/-- An object with a name, and one without whose properties are those of the first. -/
def copiedStore (copy : Shape) : Store where
  objects := #[⟨some "T", .known copiedProperties⟩, ⟨none, copy⟩]
  aliases := []
where
  copiedProperties : List Property :=
    [⟨"tags", false, .array .string⟩, ⟨"at", false, .named "Date" []⟩]

/-- A map with lists of objects, before the properties of the objects are worked out. -/
theorem schema_of_display_copied :
    let root : Source.Cursor := .ofRoot default
    let t : Ty := .map (.array (.object 1))
    let s := copiedStore (.mapped .unchanged (.object 0))
    let s' := copiedStore (.known copiedStore.copiedProperties)
    Written (.ofRoot 0 root) s t s' ∧
      ∃ text schema, Schema.ofTypeText? text = some schema ∧
        ∀ s₀, s₀ = s ∨ s₀ = s' → ∀ᶠ d in atTop, (display t).runTo d root s₀ = (.ok text, s') ∧
          (schemaOf t).runTo d root s₀ = (.ok schema, s') := by
  intro root t s s'
  have hgives (c : Context) : Gives (fun d => answer d _ (.properties (.object 1))) c s
      (.ok (some copiedStore.copiedProperties), s') := by
    refine eventually_atTop.2 ⟨2, fun d hd e => ?_⟩
    obtain ⟨d, rfl⟩ : ∃ d', d = d' + 2 := ⟨d - 2, by omega⟩
    rfl
  have hmembers : ∀ p ∈ copiedStore.copiedProperties,
      p.optional = false ∧ IsMemberName p.name ∧ p.type.IsPlain := by
    intro p hp
    simp only [copiedStore.copiedProperties, List.mem_cons, List.not_mem_nil, or_false] at hp
    rcases hp with rfl | rfl
    · exact ⟨rfl, ⟨by decide, by decide +kernel⟩, .array (.primitive (by decide))⟩
    · have hname : IsTypeName "Date" :=
        isTypeName_of_isWordPart (by decide) (by decide) (by decide)
      exact ⟨rfl, ⟨by decide, by decide +kernel⟩, .name hname⟩
  have hwritten : Written (.ofRoot 0 root) s t s' :=
    .map (.array (.object ⟨rfl, hgives _, hgives _, rfl⟩ hmembers))
  exact ⟨hwritten, schema_of_display hwritten⟩

end

end RouteScribe.Typing
