import RouteScribe.Proofs.Route.Divergence
import RouteScribe.Proofs.Route.UnionSchemas
import RouteScribe.Proofs.Typing.Levels
import RouteScribe.Proofs.Typing.Unfolding

/-!
# Unions with null

To let a value be null, or undefined, is to make a union of its type with a further member, and to let
its schema admit null.  The two go together (`schemaOf_nullable`) as long as the union is made of just
the members of the type and the further one.  Whichever way the schema of the type comes about, as that
of a single member, of several or of several that are described alike, the further member changes
nothing but the mark.

Members of a union are told apart by how they are displayed, objects aside.  That takes two types for
one that are displayed alike, and it takes a type for null whose name happens to be `null`.
-/

namespace RouteScribe.Typing

open Filter Infer
open Source (Node Cursor)

/-! ## Making the union -/

section

variable {κ α : Type} {c : Context} {s s' : Store}

/-- To give items keys is to work out the keys. -/
lemma exec_keyed {key : α → Infer κ} {l : List α} {keys : List κ}
    (h : (l.mapM key).exec c s = (.ok keys, s')) :
    (l.mapM fun a => do return (← key a, a)).exec c s = (.ok (keys.zip l), s') ∧
      keys.length = l.length := by
  induction l generalizing s keys with
  | nil =>
    rw [List.mapM_nil, exec_pure] at h
    cases h
    exact ⟨rfl, rfl⟩
  | cons a l ih =>
    rw [List.mapM_cons, exec_bind_eq_ok] at h
    obtain ⟨k, s₁, hk, hrest⟩ := h
    obtain ⟨rest, s₂, hrest, hcons⟩ := exec_bind_eq_ok.1 hrest
    cases hcons
    obtain ⟨hkeyed, hlength⟩ := ih hrest
    rw [List.mapM_cons, exec_bind_ok (exec_bind_ok hk), exec_bind_ok hkeyed]
    exact ⟨rfl, congrArg Nat.succ hlength⟩

end

/-- The keys by which a union tells some types apart when it is made from a store, and the store
afterwards. -/
def HaveKeys (program : Node) (s : Store) (ts : List Ty) (keys : List UnionKey) (s' : Store) : Prop :=
  ∀ᶠ d in atTop, runs program s (ts.mapM (unionKey ask)) d = (.ok keys, s')

section

variable {program : Node} {s s' : Store} {t u : Ty} {ts : List Ty} {keys : List UnionKey}

lemma HaveKeys.length_eq (hkeys : HaveKeys program s ts keys s') : keys.length = ts.length := by
  obtain ⟨d, hd⟩ := Eventually.exists hkeys
  exact (exec_keyed hd).2

/-- The key of a primitive type is its name. -/
lemma HaveKeys.concat (hkeys : HaveKeys program s ts keys s') (p : Primitive) :
    HaveKeys program s (ts ++ [.primitive p]) (keys ++ [.display p.name]) s' := by
  filter_upwards [hkeys, eventually_ge_atTop 1] with d hkeys hpos
  obtain ⟨d, rfl⟩ : ∃ d', d = d' + 1 := ⟨d - 1, by omega⟩
  have hlast : ([Ty.primitive p].mapM (unionKey ask)).exec
      (Context.ofFile (d + 1) (.ofRoot program)) s' = (.ok [.display p.name], s') := rfl
  rw [runs, runOn_eq] at hkeys ⊢
  rw [List.mapM_append, exec_bind_ok hkeys, exec_bind_ok hlast, exec_pure]

/-- A union keeps the first type of each key. -/
lemma HaveKeys.makeUnion_eq (hkeys : HaveKeys program s (ts.flatMap Ty.alternatives) keys s') :
    ∀ᶠ d in atTop, runs program s (Typing.makeUnion ask ts) d =
      (.ok (.ofAlternatives (firstOfKeys [] (keys.zip (ts.flatMap Ty.alternatives)))), s') := by
  filter_upwards [hkeys] with d hkeys
  rw [runs, runOn_eq, Typing.makeUnion, exec_bind_ok (exec_keyed hkeys).1, exec_pure]

/-- A union of a type with a primitive one has the members of the type, and the primitive type if
there is none with its key. -/
lemma HaveKeys.makeUnion (hkeys : HaveKeys program s t.alternatives keys s') (hdistinct : keys.Nodup)
    (p : Primitive) : ∀ᶠ d in atTop, runs program s (makeUnion ask [t, .primitive p]) d =
      (.ok (.ofAlternatives (t.alternatives ++
        if UnionKey.display p.name ∈ keys then [] else [Ty.primitive p])), s') := by
  have hfst : (keys.zip t.alternatives).map (·.1) = keys := List.map_fst_zip hkeys.length_eq.le
  have hsnd : (keys.zip t.alternatives).map (·.2) = t.alternatives :=
    List.map_snd_zip hkeys.length_eq.ge
  have hmembers : [t, Ty.primitive p].flatMap Ty.alternatives = t.alternatives ++ [Ty.primitive p] :=
    rfl
  have hzip : (keys ++ [UnionKey.display p.name]).zip (t.alternatives ++ [Ty.primitive p]) =
      keys.zip t.alternatives ++ [(UnionKey.display p.name, Ty.primitive p)] :=
    List.zip_append hkeys.length_eq
  have hfirst : firstOfKeys []
      (keys.zip t.alternatives ++ [(UnionKey.display p.name, Ty.primitive p)]) =
        t.alternatives ++ if UnionKey.display p.name ∈ keys then [] else [Ty.primitive p] := by
    rw [firstOfKeys_concat, firstOfKeys_of_nodup (hfst.symm ▸ hdistinct), hfst, hsnd]
    simp only [List.not_mem_nil, false_or]
  have hmade := HaveKeys.makeUnion_eq (hmembers ▸ hkeys.concat p)
  rwa [hmembers, hzip, hfirst] at hmade

end

/-! ## Describing the union -/

lemma orNull_ofVariants (nullable : Bool) (schemas : List Schema) :
    (Schema.ofVariants nullable schemas).orNull = Schema.ofVariants true schemas := by
  unfold Schema.ofVariants
  rcases Schema.dedupe schemas with - | ⟨s, - | ⟨s', rest⟩⟩
  · rfl
  · cases nullable with
    | false => rfl
    | true => exact Schema.orNull_orNull s
  · rfl

/-- To let the schema of a union admit null is to mark it. -/
lemma orNull_unionSchema (nullable : Bool) (schemas : List Schema) :
    (Unfolding.unionSchema nullable schemas).orNull = Unfolding.unionSchema true schemas := by
  rcases schemas with - | ⟨s, - | ⟨s', rest⟩⟩
  · rfl
  · cases nullable with
    | false => rfl
    | true => exact Schema.orNull_orNull s
  · exact orNull_ofVariants nullable (s :: s' :: rest)

/-- The description of a union is one level above those of its members. -/
lemma describeTo_union (level : Nat) (expanding : List Nat) (members : List Ty) :
    describeTo (level + 1) expanding (.union members) = do
      let schemas ← (members.filter fun m => !m.isNullish).mapM (describeTo level expanding)
      return Unfolding.unionSchema (members.any Ty.isNullish) schemas := by
  funext c s
  exact exec_describeWith_union rfl

/-- Wherever the description of a type comes to an end, that of another one does, and gives the same
schema but that it admits null. -/
def DescribedOrNull (program : Node) (t u : Ty) : Prop :=
  ∀ s, s.Within program → ∀ schema s',
    (∀ᶠ d in atTop, runs program s (schemaOf t) d = (.ok schema, s')) →
      ∀ᶠ d in atTop, runs program s (schemaOf u) d = (.ok schema.orNull, s')

section

variable {program : Node} {s s' : Store} {t u : Ty} {members members' : List Ty} {keys : List UnionKey}
  {p : Primitive}

/-- The description of a type is a run with as many levels as queries may be asked deep. -/
lemma runs_schemaOf (d : Nat) : runs program s (schemaOf t) d =
    (describeTo d [] t).exec ((Context.ofFile 0 (.ofRoot program)).atDepth d) s := rfl

/-- Two unions that differ only in what marks them. -/
lemma describedOrNull_union (hnullish : members'.any Ty.isNullish = true)
    (hsame : (members'.filter fun m => !m.isNullish) = members.filter fun m => !m.isNullish) :
    DescribedOrNull program (.union members) (.union members') := by
  intro s _ schema s' h
  filter_upwards [h, eventually_ge_atTop 1] with d hd hpos
  obtain ⟨d, rfl⟩ : ∃ d', d = d' + 1 := ⟨d - 1, by omega⟩
  rw [runs_schemaOf, describeTo_union] at hd ⊢
  obtain ⟨schemas, s₁, hschemas, hpure⟩ := exec_bind_eq_ok.1 hd
  cases hpure
  rw [hsame, exec_bind_ok hschemas, hnullish, exec_pure, orNull_unionSchema]

/-- A type that only says that a value may be missing, and is not null, and a union of such types. -/
lemma describedOrNull_of_isUndefined (ht : t.isUndefined = true)
    (hu : u = t ∨ ∃ members, u = .union members ∧ ∀ m ∈ members, m.isNullish = true) :
    DescribedOrNull program t u := by
  have hdescribe (s : Store) (d : Nat) :
      runs program s (schemaOf t) (d + 1) = (.ok (.unparsed none true), s) := by
    match t, ht with
    | .primitive .undefined, _ => rfl
    | .primitive .void, _ => rfl
  intro s _ schema s' h
  filter_upwards [h, eventually_ge_atTop 1] with d hd hpos
  obtain ⟨d, rfl⟩ : ∃ d', d = d' + 1 := ⟨d - 1, by omega⟩
  rw [hdescribe] at hd
  cases hd
  rcases hu with rfl | ⟨members, rfl, hmembers⟩
  · exact hdescribe s d
  · have hnone : (members.filter fun m => !m.isNullish) = [] :=
      List.filter_eq_nil_iff.2 fun m hm => by simp [hmembers m hm]
    rw [runs_schemaOf, describeTo_union, hnone]
    rfl

/-- A type that holds values, and its union with a type that only says that a value may be missing. -/
lemma describedOrNull_pair (ht : t.isNullish = false) {m : Ty} (hm : m.isNullish = true) :
    DescribedOrNull program t (.union [t, m]) := by
  intro s hs schema s' h
  have hc : ∀ a ∈ (Context.ofFile 0 (.ofRoot program)).aliases, Source.Within program a.2 :=
    fun a ha => within_of_mem_declarationsOf ha
  filter_upwards [eventually_describeTo_pred hc hs h, eventually_ge_atTop 1] with d hd hpos
  obtain ⟨d, rfl⟩ : ∃ d', d = d' + 1 := ⟨d - 1, by omega⟩
  rw [Nat.add_sub_cancel] at hd
  have hrest : ([t, m].filter fun m => !m.isNullish) = [t] := by simp [ht, hm]
  have hnullish : [t, m].any Ty.isNullish = true := by simp [hm]
  have hone : ([t].mapM (describeTo d [])).exec
      ((Context.ofFile 0 (.ofRoot program)).atDepth (d + 1)) s = (.ok [schema], s') := by
    rw [List.mapM_cons, List.mapM_nil, exec_bind_ok hd]
    rfl
  rw [runs_schemaOf, describeTo_union, hrest, hnullish, exec_bind_ok hone]
  rfl

/-! ## Types of a file -/

lemma ofAlternatives_of_two (htwo : 2 ≤ members.length) (hany : ∀ m ∈ members, m.isAny = false) :
    Ty.ofAlternatives members = .union members := by
  have hnone : members.any Ty.isAny = false := List.any_eq_false.2 fun m hm => by simp [hany m hm]
  rcases members with - | ⟨m, - | ⟨m', rest⟩⟩
  · cases htwo
  · simp at htwo
  · simp only [Ty.ofAlternatives, hnone]
    rfl

/-- A type that is no union, with `null` or `undefined` as a further member if it is not that. -/
lemma describedOrNull_single (hsingle : t.alternatives = [t]) (hany : t.isAny = false)
    (hnull : t.isNull = false) (hp : p = .null ∨ p = .undefined) {added : List Ty}
    (hadded : added = [] ∧ .primitive p ∈ t.alternatives ∨ added = [.primitive p]) :
    DescribedOrNull program t (.ofAlternatives (t.alternatives ++ added)) := by
  have hnullish : (Ty.primitive p).isNullish = true := by rcases hp with rfl | rfl <;> rfl
  have hpany : (Ty.primitive p).isAny = false := by rcases hp with rfl | rfl <;> rfl
  rw [hsingle] at hadded ⊢
  rcases hadded with ⟨rfl, hmem⟩ | rfl
  · have hself : Ty.ofAlternatives ([t] ++ []) = t := by simp [Ty.ofAlternatives, hany]
    rw [hself]
    obtain rfl := List.mem_singleton.1 hmem
    rcases hp with rfl | rfl
    · cases hnull
    · exact describedOrNull_of_isUndefined rfl (.inl rfl)
  · have hpair : Ty.ofAlternatives ([t] ++ [Ty.primitive p]) = .union [t, .primitive p] :=
      ofAlternatives_of_two le_rfl (by simp [hany, hpany])
    rw [hpair]
    by_cases ht : t.isUndefined = true
    · refine describedOrNull_of_isUndefined ht (.inr ⟨_, rfl, List.forall_mem_cons.2 ⟨?_, ?_⟩⟩)
      · simp [Ty.isNullish, ht]
      · exact List.forall_mem_singleton.2 hnullish
    · refine describedOrNull_pair ?_ hnullish
      simp [Ty.isNullish, ht, hnull]

/-- A normal type with `null` or `undefined` as a further member, if it does not have it. -/
lemma describedOrNull_ofAlternatives {numbers : Numeral → Prop} (hnormal : t.IsNormal numbers)
    (hany : t.isAny = false) (hnull : t.isNull = false) (hp : p = .null ∨ p = .undefined) {added : List Ty}
    (hadded : added = [] ∧ .primitive p ∈ t.alternatives ∨ added = [.primitive p]) :
    DescribedOrNull program t (.ofAlternatives (t.alternatives ++ added)) := by
  cases t with
  | union members =>
    have hnullish : (Ty.primitive p).isNullish = true := by rcases hp with rfl | rfl <;> rfl
    have hpany : (Ty.primitive p).isAny = false := by rcases hp with rfl | rfl <;> rfl
    obtain ⟨htwo, hmembers⟩ := Ty.isNormal_union.1 hnormal
    rw [Ty.alternatives] at hadded ⊢
    have hadds : ∀ m ∈ added, m = .primitive p := by
      rcases hadded with ⟨rfl, -⟩ | rfl <;> simp
    have hmem : .primitive p ∈ members ++ added := by
      rcases hadded with ⟨-, hmem⟩ | rfl
      · exact List.mem_append_left _ hmem
      · exact List.mem_append_right _ List.mem_cons_self
    have hrest : (added.filter fun m => !m.isNullish) = [] :=
      List.filter_eq_nil_iff.2 fun m hm => by simp [hadds m hm, hnullish]
    rw [ofAlternatives_of_two]
    · refine describedOrNull_union (List.any_eq_true.2 ⟨_, hmem, hnullish⟩) ?_
      rw [List.filter_append, hrest, List.append_nil]
    · exact htwo.trans (by simp)
    · intro m hm
      rcases List.mem_append.1 hm with hm | hm
      · exact (hmembers m hm).2.1
      · rw [hadds m hm, hpany]
  | _ => exact describedOrNull_single rfl hany hnull hp hadded

/-- The same with the keys that the union is made with. -/
lemma HaveKeys.describedOrNull {numbers : Numeral → Prop}
    (hkeys : HaveKeys program s t.alternatives keys s') (hdistinct : keys.Nodup)
    (hnormal : t.IsNormal numbers) (hany : t.isAny = false) (hnull : t.isNull = false)
    (hp : p = .null ∨ p = .undefined)
    (hown : ∀ e ∈ keys.zip t.alternatives, e.1 = .display p.name → e.2 = .primitive p) :
    ∃ u, (∀ᶠ d in atTop, runs program s (Typing.makeUnion ask [t, .primitive p]) d = (.ok u, s')) ∧
      DescribedOrNull program t u := by
  refine ⟨_, hkeys.makeUnion hdistinct p, describedOrNull_ofAlternatives hnormal hany hnull hp ?_⟩
  split
  case isFalse => exact .inr rfl
  case isTrue hmem =>
    have hfst : (keys.zip t.alternatives).map (·.1) = keys := List.map_fst_zip hkeys.length_eq.le
    rw [← hfst] at hmem
    obtain ⟨⟨k, m⟩, he, hkey⟩ := List.mem_map.1 hmem
    obtain rfl : m = .primitive p := hown _ he hkey
    exact .inl ⟨rfl, (List.of_mem_zip he).2⟩

end

/-- **To let a value be missing is to mark its schema.**  Take any type that a node of a file has or
denotes, after any questions about the file; it says something about the value, and not only that the
value is null.  Let the members of the type have different keys when the union of it with null is made,
and let no other member have the key of null.  Then the union is made, and in every store in which the
description of the type comes to an end, that of the union gives the same schema but that it admits
null.  The same holds with undefined in the place of null. -/
theorem schemaOf_nullable {program : Node} {s₀ s₁ s₂ s' : Store} (hs₀ : Reached program s₀)
    {q : Question} (hq : Source.Within program q.node) {d₀ : Nat} {t : Ty}
    (ht : runs program s₀ q.type d₀ = (.ok t, s')) (hany : t.isAny = false) (hnull : t.isNull = false)
    {keys : List UnionKey} (hkeys : HaveKeys program s₁ t.alternatives keys s₂)
    (hdistinct : keys.Nodup) :
    ((∀ e ∈ keys.zip t.alternatives, e.1 = .display "null" → e.2 = .null) →
      ∃ u, (∀ᶠ d in atTop, runs program s₁ (makeUnion ask [t, .null]) d = (.ok u, s₂)) ∧
        DescribedOrNull program t u) ∧
    ((∀ e ∈ keys.zip t.alternatives, e.1 = .display "undefined" → e.2 = .undefined) →
      ∃ u, (∀ᶠ d in atTop, runs program s₁ (withUndefined ask t) d = (.ok u, s₂)) ∧
        DescribedOrNull program t u) := by
  have hnormal : t.IsNormal (NumberOf program) := (Question.keeps_type hq).of_runs hs₀ ht
  exact ⟨hkeys.describedOrNull hdistinct hnormal hany hnull (.inl rfl),
    hkeys.describedOrNull hdistinct hnormal hany hnull (.inr rfl)⟩

end RouteScribe.Typing

namespace RouteScribe.Route

open Filter Typing Infer
open Source (Node Cursor)

/-- A variable that is a string or a list of numbers. -/
def stringOrNumbersText : String := "let x: string | number[]"

/-- Whether a type is that of strings and lists of numbers. -/
def isStringOrNumbers : Ty → Bool
  | .union [.primitive .string, .array (.primitive .number)] => true
  | _ => false

lemma eq_of_isStringOrNumbers {t : Ty} (h : isStringOrNumbers t = true) :
    t = .union [.primitive .string, .array (.primitive .number)] := by
  unfold isStringOrNumbers at h
  split at h
  · rfl
  · cases h

set_option maxRecDepth 10000 in
/-- The type of the variable, with null and with undefined. -/
theorem schemaOf_nullable_of_stringOrNumbers :
    let program := programOf stringOrNumbersText
    let q := Question.denoted (program.nth 7)
    Source.parse .plain stringOrNumbersText = some program ∧
      ∃ t s u v schema, runs program .empty q.type depthBound = (.ok t, s) ∧
        (∀ᶠ d in atTop, runs program s (schemaOf t) d = (.ok schema, s)) ∧
        (∀ᶠ d in atTop, runs program s (makeUnion ask [t, .null]) d = (.ok u, s)) ∧
        (∀ᶠ d in atTop, runs program s (schemaOf u) d = (.ok schema.orNull, s)) ∧
        (∀ᶠ d in atTop, runs program s (withUndefined ask t) d = (.ok v, s)) ∧
        ∀ᶠ d in atTop, runs program s (schemaOf v) d = (.ok schema.orNull, s) := by
  have hspec : (Source.parse .plain stringOrNumbersText).isSome = true ∧
      ((runs (programOf stringOrNumbersText) .empty
        (Question.denoted ((programOf stringOrNumbersText).nth 7)).type depthBound).1.toOption.any
        isStringOrNumbers) = true := by
    decide +kernel
  have hparse := parse_eq_some_programOf hspec.1
  obtain ⟨program, hprogram⟩ : ∃ program, programOf stringOrNumbersText = program := ⟨_, rfl⟩
  rw [hprogram] at hspec hparse ⊢
  intro _ q
  have hq : Source.Within program q.node := Source.within_nth program 7
  have hshape := hspec.2
  rcases hout : runs program .empty q.type depthBound with ⟨e | t, s⟩
  · rw [hout] at hshape
    cases hshape
  rw [hout] at hshape
  obtain rfl := eq_of_isStringOrNumbers hshape
  have hreached : Reached program s := by
    have hafter := Reached.empty.after_type hq depthBound
    rwa [hout] at hafter
  have hkeys : HaveKeys program s [.primitive .string, .array (.primitive .number)]
      [.display "string", .display ("number" ++ "[]")] s := by
    filter_upwards [eventually_ge_atTop 2] with d hd
    obtain ⟨d, rfl⟩ := Nat.exists_eq_add_of_le' hd
    rfl
  have hschema : ∀ᶠ d in atTop, runs program s
      (schemaOf (.union [.primitive .string, .array (.primitive .number)])) d =
        (.ok (Unfolding.unionSchema false
          [.primitive .string none false, .array (.primitive .number none false) false]), s) := by
    filter_upwards [eventually_ge_atTop 3] with d hd
    obtain ⟨d, rfl⟩ := Nat.exists_eq_add_of_le' hd
    rfl
  obtain ⟨hnull, hundefined⟩ :=
    schemaOf_nullable .empty hq hout rfl rfl hkeys (by decide)
  obtain ⟨u, hu, hdescribed⟩ := hnull fun e he hkey =>
    absurd (hkey ▸ (List.of_mem_zip he).1) (by decide)
  obtain ⟨v, hv, hdescribed'⟩ := hundefined fun e he hkey =>
    absurd (hkey ▸ (List.of_mem_zip he).1) (by decide)
  exact ⟨hparse, _, s, u, v, _, rfl, hschema, hu, hdescribed s hreached.within _ _ hschema, hv,
    hdescribed' s hreached.within _ _ hschema⟩

/-! ## Unions that are not made of the members -/

/-- The schemas of a type and of its union with null, if the type says something about the value and
not only that it is null. -/
def schemasWithNull (q : Question) : Infer (Option (Schema × Schema)) := do
  let t ← q.type
  if t.isAny || t.isNull then return none
  let schema ← schemaOf t
  let u ← makeUnion ask [t, .null]
  return some (schema, ← schemaOf u)

/-- A value of a class with the name `null`. -/
def namedNullText : String := "let y = new null()\nlet t: typeof y\n"

set_option maxRecDepth 10000 in
lemma namedNullText_spec : ∃ program, Source.parse .plain namedNullText = some program ∧
    ((runs program .empty (schemasWithNull (.denoted (program.nth 16)))
      depthBound).1.toOption.join.any fun schemas => !schemas.2.nullable) = true :=
  exists_program (by decide +kernel)

lemma schemas_of_namedNull : ∃ program, Source.parse .plain namedNullText = some program ∧
    ∃ schema schema', (runs program .empty (schemasWithNull (.denoted (program.nth 16)))
      depthBound).1 = .ok (some (schema, schema')) ∧ schema' ≠ schema.orNull := by
  obtain ⟨program, hparse, hspec⟩ := namedNullText_spec
  refine ⟨program, hparse, ?_⟩
  rcases hout : (runs program .empty (schemasWithNull (.denoted (program.nth 16))) depthBound).1 with
    e | - | ⟨schema, schema'⟩
  · rw [hout] at hspec
    cases hspec
  · rw [hout] at hspec
    cases hspec
  · rw [hout] at hspec
    refine ⟨schema, schema', rfl, ?_⟩
    rintro rfl
    simp [Except.toOption] at hspec

/-- A list of objects without a name, or of values of a class.  The alias `I` gives the objects the
name of the class. -/
def renamedText : String :=
  "interface O \x7b i: \x7b\x7d \x7d\nlet o: O, u: U, j: I\n" ++
  "const i = o.i, v = c ? [i] : [new I()]\ntype I = typeof i\ntype U = typeof v\n"

/-- The type `U` of the list after the objects in it got their name, the schemas of its members, and
the schema of its union with null. -/
def renamedMembers (node : Nat → Cursor) : Infer (Ty × List Schema × Schema) := do
  let _ ← denoted (node 26)
  let _ ← denoted (node 32)
  let t ← denoted (node 26)
  let schemas ← t.alternatives.mapM (describeTo (depthBound - 1) [])
  let u ← makeUnion ask [t, .null]
  return (t, schemas, ← schemaOf u)

set_option maxRecDepth 10000 in
lemma renamedText_spec : ∃ program, Source.parse .plain renamedText = some program ∧
    ((runs program .empty (renamedMembers program.nth) depthBound).1.toOption.any fun
      | (.union [.array _, .array _],
          [.array (.object _ _ _) false, .array (.unparsed _ _) false], .array _ true) => true
      | _ => false) = true :=
  exists_program (by decide +kernel)

/-- The schema of the union is put together from those of its members. -/
lemma schemasWithNull_of_members {program : Node} {node : Nat → Cursor} {a b : Ty} {s' : Store}
    {schemas : List Schema} {schema' : Schema}
    (h : runs program .empty (renamedMembers node) depthBound =
      (.ok (.union [.array a, .array b], schemas, schema'), s')) :
    runs program .empty (do
        let _ ← denoted (node 26)
        let _ ← denoted (node 32)
        schemasWithNull (.denoted (node 26))) depthBound =
      (.ok (some (Unfolding.unionSchema false schemas, schema')), s') := by
  obtain ⟨t₁, s₁, h₁, h⟩ := exec_bind_eq_ok.1 h
  obtain ⟨t₂, s₂, h₂, h⟩ := exec_bind_eq_ok.1 h
  obtain ⟨t, s₃, h₃, h⟩ := exec_bind_eq_ok.1 h
  obtain ⟨schemas, s₄, h₄, h⟩ := exec_bind_eq_ok.1 h
  obtain ⟨u, s₅, h₅, h⟩ := exec_bind_eq_ok.1 h
  obtain ⟨schema', s₆, h₆, h⟩ := exec_bind_eq_ok.1 h
  cases h
  have hunion : describeTo depthBound [] (.union [.array a, .array b]) = do
      let schemas ← [.array a, .array b].mapM (describeTo (depthBound - 1) [])
      return Unfolding.unionSchema false schemas :=
    describeTo_union (depthBound - 1) [] [.array a, .array b]
  have hschema : runs program s₃ (schemaOf (.union [.array a, .array b])) depthBound =
      (.ok (Unfolding.unionSchema false schemas), s₄) := by
    rw [runs_schemaOf, hunion]
    exact exec_bind_ok h₄
  rw [runs, runOn_eq, exec_bind_ok h₁, exec_bind_ok h₂]
  refine (exec_bind_ok h₃).trans ((exec_bind_ok hschema).trans ?_)
  exact (exec_bind_ok h₅).trans (exec_bind_ok h₆)

/-- Lists of objects and lists of something else have two schemas. -/
lemma dedupe_of_lists (properties : List (String × Schema)) (required : List String)
    (n n' : Bool) (description : Option String) :
    let schemas := [Schema.array (.object properties required n) false,
      .array (.unparsed description n') false]
    Schema.dedupe schemas = schemas := by
  have hne : (Schema.array (.object properties required n) false).structuralKey ≠
      (Schema.array (.unparsed description n') false).structuralKey := by
    intro hkey
    have hnormal := Schema.normal_eq_of_structuralKey_eq hkey
    simp [Schema.normal] at hnormal
  simp [Schema.dedupe, Schema.dedupeFrom, hne.symm]

lemma schemas_of_renamed : ∃ program, Source.parse .plain renamedText = some program ∧
    ∃ schema schema', (runs program .empty (do
        let _ ← denoted (program.nth 26)
        let _ ← denoted (program.nth 32)
        schemasWithNull (.denoted (program.nth 26))) depthBound).1 =
      .ok (some (schema, schema')) ∧ schema' ≠ schema.orNull := by
  obtain ⟨program, hparse, hspec⟩ := renamedText_spec
  refine ⟨program, hparse, ?_⟩
  rcases hout : runs program .empty (renamedMembers program.nth) depthBound with
    ⟨e | ⟨t, schemas, schema'⟩, s'⟩
  · rw [hout] at hspec
    cases hspec
  rw [hout] at hspec
  match t, schemas, schema', hspec, hout with
  | .union [.array a, .array b], [.array (.object ps required n) false,
      .array (.unparsed description n') false], .array element true, _, hout =>
    refine ⟨_, _, congrArg Prod.fst (schemasWithNull_of_members hout), ?_⟩
    rw [orNull_unionSchema]
    change _ ≠ Schema.ofVariants true _
    rw [Schema.ofVariants, dedupe_of_lists]
    simp

/-- Any value, together with an object that has no end. -/
def endlessPairText : String := "let x: \x7b next: typeof x \x7d\nlet t: [any, typeof x]\n"

set_option maxRecDepth 10000 in
lemma endlessPairText_spec : ∃ program, Source.parse .plain endlessPairText = some program ∧
    let node := program.nth
    SelfTyped (node 3) (node 5) (node 7) (node 9) (node 11) (node 13) (node 15) "next" ∧
      (node 23).kind = .tupleType ∧ (node 23).named = [node 25, node 27] ∧
      (node 25).kind = .predefinedType ∧ (node 25).text = "any" ∧
      (node 27).kind = .typeQuery ∧ (node 27).named.head? = some (node 29) ∧
      (node 29).kind = .identifier ∧ ((node 29).text == "undefined") = false ∧
      (node 29).declaration? = some (node 3) ∧
      (runs program .empty (denoted (node 23)) depthBound).1.toOption.isSome = true :=
  exists_program (by decide +kernel)

section

variable {declaration ascription body member typed query name : Cursor} {label : String}
  {c : Context} {s : Store}

lemma tries_denoted_pair (h : SelfTyped declaration ascription body member typed query name label)
    (d : Nat) {pair any query' name' : Cursor} (hpair : pair.kind = .tupleType)
    (hparts : pair.named = [any, query']) (hany : any.kind = .predefinedType)
    (htext : any.text = "any") (hquery : query'.kind = .typeQuery)
    (hname : query'.named.head? = some name') (hidentifier : name'.kind = .identifier)
    (hdefined : (name'.text == "undefined") = false)
    (hdeclaration : name'.declaration? = some declaration) (hopen : name'.key ∉ c.resolving) :
    Tries c s (answer d _ (.denoted pair)) (.tuple [.any, .object s.objects.size])
      (s.withMembers body) := by
  cases d with
  | zero => exact .inl rfl
  | succ d =>
    have hfirst : Tries c s (answer d _ (.denoted any)) .any s := by
      cases d with
      | zero => exact .inl rfl
      | succ d =>
        right
        simp only [answer, answerWith, denotation, hany, htext]
        rfl
    have hstep : answer (d + 1) _ (.denoted pair) = (do
        let first ← answer d _ (.denoted any)
        let second ← answer d _ (.denoted query')
        return .tuple [first, second]) := by
      simp only [answer, answerWith, denotation, hpair, denotedAll, hparts, List.mapM_cons,
        List.mapM_nil, LawfulMonad.bind_assoc, LawfulMonad.pure_bind]
    rw [hstep]
    exact hfirst.bind ((tries_denoted_query h d hquery hname hidentifier hdefined hdeclaration
      hopen).bind (tries_pure _))

/-- The union of the pair with anything is never made. -/
lemma makeUnion_pair (h : SelfTyped declaration ascription body member typed query name label)
    (hopen : name.key ∉ c.resolving) (hdisplaying : c.displaying = []) {id : Nat}
    (hid : s.objects[id]? = some ⟨none, .members body⟩) (t : Ty) :
    ((makeUnion ask [.tuple [.any, .object id], t]).exec c s).1 = .error .exhausted := by
  have hdisplay (d : Nat) : ((answer d _ (.display (.tuple [.any, .object id]))).exec c s).1 =
      .error .exhausted := by
    cases d with
    | zero => rfl
    | succ d =>
      refine exec_bind_fst_error ?_
      cases d with
      | zero => rfl
      | succ d =>
        refine exec_mapM_error (b := "any") (l := [Ty.any]) (a := Ty.object id) ?_ ?_
        · intro t ht
          obtain rfl := List.mem_singleton.1 ht
          rfl
        · exact display_selfTyped h (d + 1) hopen hid (by simp [hdisplaying])
  have hkey : ((unionKey ask (.tuple [.any, .object id])).exec c s).1 = .error .exhausted :=
    exec_bind_fst_error (hdisplay c.depth)
  exact exec_bind_fst_error (exec_bind_fst_error (exec_bind_fst_error hkey))

end

lemma makeUnion_of_endlessPair : ∃ program, Source.parse .plain endlessPairText = some program ∧
    ∃ t s schema, runs program .empty (denoted (program.nth 23)) depthBound = (.ok t, s) ∧
      t.isAny = false ∧ t.isNull = false ∧
      (∀ᶠ d in atTop, runs program s (schemaOf t) d = (.ok schema, s)) ∧
      ∀ d, (runs program s (makeUnion ask [t, .null]) d).1 = .error .exhausted := by
  obtain ⟨program, hparse, hself, hpair, hparts, hany, htext, hquery, hname, hidentifier, hdefined,
    hdeclaration, hends⟩ := endlessPairText_spec
  refine ⟨program, hparse, ?_⟩
  have htries := tries_denoted_pair (c := Context.ofFile depthBound (.ofRoot program)) (s := .empty)
    hself depthBound hpair hparts hany htext hquery hname hidentifier hdefined hdeclaration
    (by simp [Context.ofFile, Context.ofRoot])
  have hrun : runs program .empty (denoted (program.nth 23)) depthBound =
      (.ok (.tuple [.any, .object 0]), Store.empty.withMembers (program.nth 7)) := by
    refine htries.resolve_left fun hexhausted => ?_
    have hnone : (runs program .empty (denoted (program.nth 23)) depthBound).1 = .error .exhausted :=
      hexhausted
    rw [hnone] at hends
    cases hends
  refine ⟨_, _, .array (.unparsed (some ("Unparsed type: " ++ "any")) false) false, hrun, rfl, rfl,
    ?_, fun d => ?_⟩
  · filter_upwards [eventually_ge_atTop 3] with d hd
    obtain ⟨d, rfl⟩ := Nat.exists_eq_add_of_le' hd
    rfl
  · exact makeUnion_pair hself (by simp [Context.ofFile, Context.ofRoot]) rfl rfl .null

/-- **Unions with null that are not the type with a mark.**  A type of a class with the name `null`
takes the place of null in the union.  Two lists that are displayed alike, since what they hold got one
name, become one list.  And a type that has a schema but is displayed without end has no union at
all. -/
theorem null_not_marked :
    (∃ program, Source.parse .plain namedNullText = some program ∧
      ∃ schema schema', (runs program .empty (schemasWithNull (.denoted (program.nth 16)))
        depthBound).1 = .ok (some (schema, schema')) ∧ schema' ≠ schema.orNull) ∧
    (∃ program, Source.parse .plain renamedText = some program ∧
      ∃ schema schema', (runs program .empty (do
          let _ ← denoted (program.nth 26)
          let _ ← denoted (program.nth 32)
          schemasWithNull (.denoted (program.nth 26))) depthBound).1 =
        .ok (some (schema, schema')) ∧ schema' ≠ schema.orNull) ∧
    ∃ program, Source.parse .plain endlessPairText = some program ∧
      ∃ t s schema, runs program .empty (denoted (program.nth 23)) depthBound = (.ok t, s) ∧
        t.isAny = false ∧ t.isNull = false ∧
        (∀ᶠ d in atTop, runs program s (schemaOf t) d = (.ok schema, s)) ∧
        ∀ d, (runs program s (makeUnion ask [t, .null]) d).1 = .error .exhausted :=
  ⟨schemas_of_namedNull, schemas_of_renamed, makeUnion_of_endlessPair⟩

end RouteScribe.Route
