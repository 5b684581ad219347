import RouteScribe.Proofs.Route.NullableUnions

/-!
# Widening and schemas

In a place that can change a type is widened: the literals in it become the types they belong to.  The
schema of a literal is that of the type it belongs to, so a widened type has the schema it had before
(`schemaOf_widen`).

For a union that takes an argument, because its members are told apart twice: by how they are displayed
when it is made, and by the keys of their schemas when it is described.  As long as only literals are
merged, what the first leaves out is what the second would have left out.  A type whose name is that of
a primitive type is displayed like it, and objects that got a name since the union was made are
displayed alike; then members that are described differently are merged.
-/

namespace RouteScribe.Typing

open Filter Infer
open Source (Node Cursor)

/-! ## Widened members -/

namespace Ty

@[simp] lemma widenLiteral_widenLiteral (t : Ty) : t.widenLiteral.widenLiteral = t.widenLiteral := by
  cases t <;> rfl

@[simp] lemma isNullish_widenLiteral (t : Ty) : t.widenLiteral.isNullish = t.isNullish := by
  cases t with
  | literal l => cases l <;> rfl
  | _ => rfl

@[simp] lemma isAny_widenLiteral (t : Ty) : t.widenLiteral.isAny = t.isAny := by
  cases t with
  | literal l => cases l <;> rfl
  | _ => rfl

@[simp] lemma unionMembers?_widenLiteral (t : Ty) :
    t.widenLiteral.unionMembers? = t.unionMembers? := by
  cases t <;> rfl

end Ty

/-- A literal is described as the type it belongs to. -/
lemma describeTo_widenLiteral (level : Nat) (expanding : List Nat) (t : Ty) :
    describeTo level expanding t.widenLiteral = describeTo level expanding t := by
  cases t with
  | literal l => cases level <;> cases l <;> rfl
  | _ => rfl

/-- The type of a literal is described at once. -/
lemma exists_describeTo_base (l : Literal) : ∃ schema, ∀ level expanding,
    describeTo (level + 1) expanding (.primitive l.base) = pure schema := by
  cases l <;> exact ⟨_, fun _ _ => rfl⟩

lemma describeTo_union_widened (level : Nat) (members : List Ty) :
    describeTo level [] (.union (members.map Ty.widenLiteral)) =
      describeTo level [] (.union members) := by
  cases level with
  | zero => rfl
  | succ level =>
    simp only [describeTo_union, List.filter_map, List.any_map, List.mapM_map, Function.comp_def,
      Ty.isNullish_widenLiteral, describeTo_widenLiteral]

/-! ## Members that are described like earlier ones -/

section

variable {level : Nat} {known known' : List String} {seen : List UnionKey} {t : Ty} {ts : List Ty}
  {entries : List (UnionKey × Ty)} {schema : Schema}

/-- The schemas of some types that have new keys. -/
def describeNew (level : Nat) (known : List String) (ts : List Ty) : Infer (List Schema) := do
  return Schema.dedupeFrom known (← ts.mapM (describeTo level []))

lemma describeNew_cons : describeNew level known (t :: ts) = do
    let schema ← describeTo level [] t
    if schema.structuralKey ∈ known then describeNew level known ts
    else return schema :: (← describeNew level (schema.structuralKey :: known) ts) := by
  simp only [describeNew, List.mapM_cons, LawfulMonad.bind_assoc, LawfulMonad.pure_bind]
  refine congrArg _ (funext fun schema => ?_)
  split
  case isTrue hknown => simp only [Schema.dedupeFrom, if_pos hknown]
  case isFalse hknown => simp only [Schema.dedupeFrom, if_neg hknown]

/-- To describe a type gives nothing new. -/
def IsKnown (level : Nat) (known : List String) (t : Ty) : Prop :=
  ∃ schema, describeTo level [] t = pure schema ∧ schema.structuralKey ∈ known

lemma IsKnown.mono (h : IsKnown level known t) (hsub : known ⊆ known') : IsKnown level known' t := by
  obtain ⟨schema, hschema, hknown⟩ := h
  exact ⟨schema, hschema, hsub hknown⟩

lemma IsKnown.describeNew_cons (h : IsKnown level known t) :
    describeNew level known (t :: ts) = describeNew level known ts := by
  obtain ⟨schema, hschema, hknown⟩ := h
  rw [Typing.describeNew_cons, hschema, LawfulMonad.pure_bind, if_pos hknown]

/-- Types with one key are the type of a literal. -/
def OnlyLiteralsMerge (entries : List (UnionKey × Ty)) : Prop :=
  entries.Pairwise fun e e' =>
    e.1 = e'.1 → ∃ l : Literal, e.2 = .primitive l.base ∧ e'.2 = .primitive l.base

/-- **The two deduplications agree.**  The members of a union with new keys are described as all of
them are, as long as the members whose keys have been seen are known. -/
lemma OnlyLiteralsMerge.describeNew_firstOfKeys (h : OnlyLiteralsMerge entries)
    (hseen : ∀ e ∈ entries, e.1 ∈ seen → IsKnown (level + 1) known e.2) :
    describeNew (level + 1) known ((firstOfKeys seen entries).filter fun m => !m.isNullish) =
      describeNew (level + 1) known ((entries.map (·.2)).filter fun m => !m.isNullish) := by
  induction entries generalizing seen known with
  | nil => rfl
  | cons e rest ih =>
    obtain ⟨k, m⟩ := e
    obtain ⟨hfirst, hrest⟩ := List.pairwise_cons.1 h
    obtain ⟨hm, hlater⟩ := List.forall_mem_cons.1 hseen
    rw [firstOfKeys, List.map_cons]
    by_cases hk : k ∈ seen
    · rw [if_pos (List.contains_iff_mem.2 hk), ih hrest hlater, List.filter_cons]
      split
      · rw [(hm hk).describeNew_cons]
      · rfl
    rw [if_neg (mt List.contains_iff_mem.1 hk), List.filter_cons, List.filter_cons]
    by_cases hbase : ∃ l : Literal, m = .primitive l.base
    case pos =>
      -- the type of a literal is known from here on, so members with its key may follow
      obtain ⟨l, rfl⟩ := hbase
      obtain ⟨schema, hschema⟩ := exists_describeTo_base l
      have hnext (known : List String) (hknown : schema.structuralKey ∈ known)
          (hlater : ∀ e ∈ rest, e.1 ∈ seen → IsKnown (level + 1) known e.2) :
          ∀ e ∈ rest, e.1 ∈ k :: seen → IsKnown (level + 1) known e.2 := by
        intro e he hmem
        rcases List.mem_cons.1 hmem with rfl | hmem
        · obtain ⟨l', hl, hl'⟩ := hfirst e he rfl
          exact ⟨schema, by rw [hl', ← hl]; exact hschema level [], hknown⟩
        · exact hlater e he hmem
      have hholds : (!(Ty.primitive l.base).isNullish) = true := by cases l <;> rfl
      rw [if_pos hholds, if_pos hholds, describeNew_cons, describeNew_cons, hschema,
        LawfulMonad.pure_bind, LawfulMonad.pure_bind]
      split
      case isTrue hknown => exact ih hrest (hnext known hknown hlater)
      case isFalse =>
        rw [ih hrest (hnext _ List.mem_cons_self fun e he hmem =>
          (hlater e he hmem).mono (List.subset_cons_self _ _))]
    case neg =>
      -- any other type is the only one with its key
      have hnext (known' : List String) (hsub : known ⊆ known') :
          ∀ e ∈ rest, e.1 ∈ k :: seen → IsKnown (level + 1) known' e.2 := by
        intro e he hmem
        rcases List.mem_cons.1 hmem with rfl | hmem
        · obtain ⟨l, hl, -⟩ := hfirst e he rfl
          exact absurd ⟨l, hl⟩ hbase
        · exact (hlater e he hmem).mono hsub
      split
      · rw [describeNew_cons, describeNew_cons]
        refine congrArg _ (funext fun schema => ?_)
        rw [ih hrest (hnext known (List.Subset.refl _)),
          ih hrest (hnext _ (List.subset_cons_self _ _))]
      · exact ih hrest (hnext known (List.Subset.refl _))

end

/-! ## Describing a widened union -/

/-- The schema of a union depends on its members' schemas only up to repetitions. -/
lemma unionSchema_dedupe (nullable : Bool) (schemas : List Schema) :
    Unfolding.unionSchema nullable (Schema.dedupe schemas) =
      Unfolding.unionSchema nullable schemas := by
  rcases schemas with - | ⟨s, - | ⟨s', rest⟩⟩
  · rfl
  · rfl
  have htwo : Unfolding.unionSchema nullable (s :: s' :: rest) =
      Schema.ofVariants nullable (s :: s' :: rest) := rfl
  have hagain := Schema.dedupe_dedupe (s :: s' :: rest)
  rw [htwo, Schema.ofVariants]
  rcases hdedupe : Schema.dedupe (s :: s' :: rest) with - | ⟨t, - | ⟨t', rest'⟩⟩
  · exact absurd hdedupe (Schema.dedupe_ne_nil (List.cons_ne_nil _ _))
  · rfl
  · rw [hdedupe] at hagain
    simp only [Unfolding.unionSchema, Schema.ofVariants, hagain]

lemma describeTo_union_eq (level : Nat) (members : List Ty) :
    describeTo (level + 1) [] (.union members) = do
      let schemas ← describeNew level [] (members.filter fun m => !m.isNullish)
      return Unfolding.unionSchema (members.any Ty.isNullish) schemas := by
  rw [describeTo_union, describeNew, LawfulMonad.bind_assoc]
  refine congrArg _ (funext fun schemas => ?_)
  rw [LawfulMonad.pure_bind]
  exact congrArg pure (unionSchema_dedupe _ schemas).symm

section

variable {program : Node} {s s' : Store} {t : Ty} {ts members : List Ty} {keys : List UnionKey}
  {entries : List (UnionKey × Ty)}

lemma OnlyLiteralsMerge.any_isNullish (h : OnlyLiteralsMerge entries) :
    (firstOfKeys [] entries).any Ty.isNullish = (entries.map (·.2)).any Ty.isNullish := by
  refine Bool.eq_iff_iff.2 ⟨fun hfirst => ?_, fun hall => ?_⟩
  · obtain ⟨m, hm, hnullish⟩ := List.any_eq_true.1 hfirst
    exact List.any_eq_true.2 ⟨m, (firstOfKeys_sublist [] entries).subset hm, hnullish⟩
  · obtain ⟨m, hm, hnullish⟩ := List.any_eq_true.1 hall
    obtain ⟨e, he, rfl⟩ := List.mem_map.1 hm
    obtain ⟨m', hm', he'⟩ := exists_mem_firstOfKeys he List.not_mem_nil
    obtain rfl : e.2 = m' := by
      by_contra hne
      have : Std.Symm fun e e' : UnionKey × Ty =>
          e.1 = e'.1 → ∃ l : Literal, e.2 = .primitive l.base ∧ e'.2 = .primitive l.base :=
        ⟨fun e e' h hkey => (h hkey.symm).imp fun _ => And.symm⟩
      obtain ⟨l, hl, -⟩ := h.forall he he' (fun heq => hne (congrArg Prod.snd heq)) rfl
      rw [hl] at hnullish
      cases l <;> cases hnullish
    exact List.any_eq_true.2 ⟨_, hm', hnullish⟩

/-- If several members have one key then they are the type of a literal. -/
lemma OnlyLiteralsMerge.eq_base (h : OnlyLiteralsMerge entries) (htwo : 2 ≤ entries.length) {m : Ty}
    (hone : firstOfKeys [] entries = [m]) : ∃ l : Literal, m = .primitive l.base := by
  rcases entries with - | ⟨⟨k, m'⟩, - | ⟨e, rest⟩⟩
  · cases htwo
  · simp at htwo
  have hnone : firstOfKeys [k] (e :: rest) = [] := (List.cons.inj hone).2
  have hkey : e.1 = k := by
    by_contra hne
    have hnew : e.1 ∉ [k] := by simpa using hne
    have hmem : e ∈ e :: rest := List.mem_cons_self
    obtain ⟨m', hm', -⟩ := exists_mem_firstOfKeys hmem hnew
    rw [hnone] at hm'
    cases hm'
  obtain ⟨l, hl, -⟩ := (List.pairwise_cons.1 h).1 e List.mem_cons_self hkey.symm
  exact ⟨l, (List.cons.inj hone).1 ▸ hl⟩

/-- A union without the members whose keys come a second time is described as it is with them. -/
lemma OnlyLiteralsMerge.describeTo_ofAlternatives (h : OnlyLiteralsMerge entries)
    (htwo : 2 ≤ entries.length) (hany : ∀ e ∈ entries, e.2.isAny = false) (level : Nat) :
    describeTo (level + 2) [] (.ofAlternatives (firstOfKeys [] entries)) =
      describeTo (level + 2) [] (.union (entries.map (·.2))) := by
  have hnew : describeNew (level + 1) [] ((firstOfKeys [] entries).filter fun m => !m.isNullish) =
      describeNew (level + 1) [] ((entries.map (·.2)).filter fun m => !m.isNullish) :=
    h.describeNew_firstOfKeys (by simp)
  have hne : firstOfKeys [] entries ≠ [] := by
    obtain ⟨e, he⟩ := List.exists_mem_of_length_pos (Nat.lt_of_lt_of_le Nat.two_pos htwo)
    obtain ⟨m, hm, -⟩ := exists_mem_firstOfKeys he List.not_mem_nil
    exact List.ne_nil_of_mem hm
  have hsub := (firstOfKeys_sublist [] entries).subset
  rw [describeTo_union_eq, ← hnew, ← h.any_isNullish]
  rcases hfirst : firstOfKeys [] entries with - | ⟨m, - | ⟨m', rest⟩⟩
  · exact absurd hfirst hne
  · obtain ⟨l, rfl⟩ := h.eq_base htwo hfirst
    obtain ⟨schema, hschema⟩ := exists_describeTo_base l
    have hself : Ty.ofAlternatives [.primitive l.base] = .primitive l.base := by cases l <;> rfl
    have hholds : ([Ty.primitive l.base].filter fun m => !m.isNullish) = [.primitive l.base] := by
      cases l <;> rfl
    have hnullish : [Ty.primitive l.base].any Ty.isNullish = false := by cases l <;> rfl
    rw [hself, hholds, hnullish, hschema, describeNew_cons, hschema, LawfulMonad.pure_bind,
      if_neg List.not_mem_nil]
    rfl
  · rw [ofAlternatives_of_two (by simp), describeTo_union_eq]
    intro m₀ hm₀
    obtain ⟨e, he, rfl⟩ := List.mem_map.1 (hsub (hfirst ▸ hm₀))
    exact hany e he

/-! ## Making the widened union -/

/-- Widening a union whose members are no unions. -/
lemma HaveKeys.widen_union (hflat : ∀ m ∈ members, m.unionMembers? = none)
    (hkeys : HaveKeys program s (members.map Ty.widenLiteral) keys s') :
    ∀ᶠ d in atTop, runs program s (widen ask (.union members)) d =
      (.ok (.ofAlternatives (firstOfKeys [] (keys.zip (members.map Ty.widenLiteral)))), s') := by
  have hsame : (members.map Ty.widenLiteral).flatMap Ty.alternatives =
      members.map Ty.widenLiteral := by
    refine Ty.flatMap_alternatives fun t ht => ?_
    obtain ⟨m, hm, rfl⟩ := List.mem_map.1 ht
    rw [Ty.unionMembers?_widenLiteral, hflat m hm]
  have hmade := HaveKeys.makeUnion_eq (hsame.symm ▸ hkeys)
  rwa [hsame] at hmade

/-- Two types that are described alike, whenever the description may go two levels deep. -/
def DescribedAlike (program : Node) (t u : Ty) : Prop :=
  ∀ s, ∀ d ≥ 2, runs program s (schemaOf u) d = runs program s (schemaOf t) d

/-- Widening gives the type back; if it is a union, whenever its members have different keys. -/
def StaysWide (program : Node) (u : Ty) : Prop :=
  (u.unionMembers? = none → ∀ s d, runs program s (widen ask u) d = (.ok u, s)) ∧
    ∀ members, u = .union members → ∀ s s' keys, HaveKeys program s members keys s' → keys.Nodup →
      ∀ᶠ d in atTop, runs program s (widen ask u) d = (.ok u, s')

lemma runs_widen_single (ht : t.unionMembers? = none) (d : Nat) :
    runs program s (widen ask t) d = (.ok t.widenLiteral, s) := by
  cases t with
  | union members => cases ht
  | _ => rfl

/-- The members of a union of widened types are widened. -/
lemma widenLiteral_of_mem_ofAlternatives (hts : ∀ t ∈ ts, t.unionMembers? = none ∧ t.widenLiteral = t) :
    ∀ m ∈ (Ty.ofAlternatives ts).alternatives, m.widenLiteral = m := by
  unfold Ty.ofAlternatives
  split
  · exact List.forall_mem_singleton.2 rfl
  split
  · exact List.forall_mem_singleton.2 rfl
  split
  · obtain ⟨hsingle, hwide⟩ := hts _ List.mem_cons_self
    rw [Ty.alternatives_of_single hsingle]
    exact List.forall_mem_singleton.2 hwide
  · exact fun m hm => (hts m hm).2

lemma staysWide_of_isNormal {numbers : Numeral → Prop} (hnormal : t.IsNormal numbers)
    (hwide : ∀ m ∈ t.alternatives, m.widenLiteral = m) : StaysWide program t := by
  constructor
  · intro ht s d
    rw [Ty.alternatives_of_single ht] at hwide
    rw [runs_widen_single ht, hwide t List.mem_cons_self]
  · rintro members rfl s s' keys hkeys hdistinct
    obtain ⟨htwo, hmembers⟩ := Ty.isNormal_union.1 hnormal
    have hsame : members.map Ty.widenLiteral = members :=
      (List.map_congr_left hwide).trans members.map_id
    have hfst : (keys.zip members).map (·.1) = keys := List.map_fst_zip hkeys.length_eq.le
    have hfirst : firstOfKeys [] (keys.zip members) = members := by
      rw [firstOfKeys_of_nodup (hfst.symm ▸ hdistinct)]
      exact List.map_snd_zip hkeys.length_eq.ge
    have hmade := HaveKeys.widen_union (fun m hm => (hmembers m hm).1) (hsame.symm ▸ hkeys)
    rwa [hsame, hfirst, ofAlternatives_of_two htwo fun m hm => (hmembers m hm).2.1] at hmade

/-- A union whose members merge only as literals is described alike when it is widened. -/
lemma HaveKeys.widen_spec {numbers : Numeral → Prop}
    (hnormal : (Ty.union members).IsNormal numbers)
    (hkeys : HaveKeys program s (members.map Ty.widenLiteral) keys s')
    (hmerge : OnlyLiteralsMerge (keys.zip (members.map Ty.widenLiteral))) :
    ∃ u, (∀ᶠ d in atTop, runs program s (widen ask (.union members)) d = (.ok u, s')) ∧
      DescribedAlike program (.union members) u ∧ StaysWide program u := by
  obtain ⟨htwo, hmembers⟩ := Ty.isNormal_union.1 hnormal
  have hsnd : (keys.zip (members.map Ty.widenLiteral)).map (·.2) = members.map Ty.widenLiteral :=
    List.map_snd_zip hkeys.length_eq.ge
  have hwidened : ∀ t ∈ members.map Ty.widenLiteral,
      t.IsMember numbers ∧ t.isAny = false ∧ t.widenLiteral = t := by
    intro t ht
    obtain ⟨m, hm, rfl⟩ := List.mem_map.1 ht
    obtain ⟨hflat, hany, hm⟩ := hmembers m hm
    exact ⟨⟨by simp [hflat], hm.widenLiteral⟩, by simp [hany], by simp⟩
  have hkept : ∀ t ∈ firstOfKeys [] (keys.zip (members.map Ty.widenLiteral)),
      t.IsMember numbers ∧ t.isAny = false ∧ t.widenLiteral = t := fun t ht =>
    hwidened t (hsnd ▸ (firstOfKeys_sublist _ _).subset ht)
  refine ⟨_, hkeys.widen_union fun m hm => (hmembers m hm).1, fun s d hd => ?_,
    staysWide_of_isNormal (Ty.isNormal_ofAlternatives fun t ht => (hkept t ht).1)
      (widenLiteral_of_mem_ofAlternatives fun t ht => ⟨(hkept t ht).1.1, (hkept t ht).2.2⟩)⟩
  obtain ⟨level, rfl⟩ : ∃ level, d = level + 2 := ⟨d - 2, by omega⟩
  have hlength : 2 ≤ (keys.zip (members.map Ty.widenLiteral)).length := by
    rw [← List.length_map (·.2), hsnd, List.length_map]
    exact htwo
  rw [runs_schemaOf, runs_schemaOf, hmerge.describeTo_ofAlternatives hlength fun e he =>
    (hwidened e.2 (hsnd ▸ List.mem_map_of_mem he)).2.1, hsnd, describeTo_union_widened]

end

/-- **Widening leaves schemas as they are.**  Take any type that a node of a file has or denotes, after
any questions about the file.  If it is no union, then the widened type is described as the type is,
whether that comes to an end or not, and widening it again gives it back.  The same holds of a union if
those members of the widened union that have the same key, at the moment when it is made, are the types
of literals; and widening the widened union again gives it back whenever its members have different
keys. -/
theorem schemaOf_widen {program : Node} {s₀ s' : Store} (hs₀ : Reached program s₀) {q : Question}
    (hq : Source.Within program q.node) {d₀ : Nat} {t : Ty}
    (ht : runs program s₀ q.type d₀ = (.ok t, s')) :
    (t.unionMembers? = none → ∃ u, (∀ s d, runs program s (widen ask t) d = (.ok u, s)) ∧
      (∀ s d, runs program s (schemaOf u) d = runs program s (schemaOf t) d) ∧ StaysWide program u) ∧
    ∀ members, t = .union members → ∀ s₁ s₂ keys,
      HaveKeys program s₁ (members.map Ty.widenLiteral) keys s₂ →
      OnlyLiteralsMerge (keys.zip (members.map Ty.widenLiteral)) →
      ∃ u, (∀ᶠ d in atTop, runs program s₁ (widen ask t) d = (.ok u, s₂)) ∧
        DescribedAlike program t u ∧ StaysWide program u := by
  have hnormal : t.IsNormal (NumberOf program) := (Question.keeps_type hq).of_runs hs₀ ht
  constructor
  · intro hsingle
    have hwide : ∀ m ∈ t.widenLiteral.alternatives, m.widenLiteral = m := by
      rw [Ty.alternatives_of_single (by simpa using hsingle)]
      simp
    exact ⟨t.widenLiteral, fun s d => runs_widen_single hsingle d,
      fun s d => by rw [runs_schemaOf, runs_schemaOf, describeTo_widenLiteral],
      staysWide_of_isNormal hnormal.widenLiteral hwide⟩
  · rintro members rfl s₁ s₂ keys hkeys hmerge
    exact hkeys.widen_spec hnormal hmerge

end RouteScribe.Typing

namespace RouteScribe.Route

open Filter Typing Infer
open Source (Node Cursor)

/-- A variable for one of two strings, a number or null. -/
def literalsText : String := "let x: 'a' | 'b' | 3 | null"

/-- Whether a type is that of the two strings, the number and null. -/
def isLiterals : Ty → Bool
  | .union [.literal (.string "a"), .literal (.string "b"), .literal (.number (.exact 3)),
      .primitive .null] => true
  | _ => false

lemma eq_of_isLiterals {t : Ty} (h : isLiterals t = true) :
    t = .union [.literal (.string "a"), .literal (.string "b"), .literal (.number (.exact 3)),
      .primitive .null] := by
  unfold isLiterals at h
  split at h
  · rfl
  · cases h

set_option maxRecDepth 10000 in
/-- The type of the variable becomes a string, a number or null, and stays so. -/
theorem schemaOf_widen_of_literals :
    let program := programOf literalsText
    let q := Question.denoted (program.nth 7)
    let u : Ty := .union [.primitive .string, .primitive .number, .primitive .null]
    Source.parse .plain literalsText = some program ∧
      ∃ t s, runs program .empty q.type depthBound = (.ok t, s) ∧
        (∀ᶠ d in atTop, runs program s (widen ask t) d = (.ok u, s)) ∧ DescribedAlike program t u ∧
        ∀ᶠ d in atTop, runs program s (widen ask u) d = (.ok u, s) := by
  have hspec : (Source.parse .plain literalsText).isSome = true ∧
      ((runs (programOf literalsText) .empty
        (Question.denoted ((programOf literalsText).nth 7)).type depthBound).1.toOption.any
        isLiterals) = true := by
    decide +kernel
  have hparse := parse_eq_some_programOf hspec.1
  obtain ⟨program, hprogram⟩ : ∃ program, programOf literalsText = program := ⟨_, rfl⟩
  rw [hprogram] at hspec hparse ⊢
  intro _ q u
  have hq : Source.Within program q.node := Source.within_nth program 7
  have hshape := hspec.2
  rcases hout : runs program .empty q.type depthBound with ⟨e | t, s⟩
  · rw [hout] at hshape
    cases hshape
  rw [hout] at hshape
  obtain rfl := eq_of_isLiterals hshape
  have hkeys : HaveKeys program s
      ([.literal (.string "a"), .literal (.string "b"), .literal (.number (.exact 3)),
        .primitive .null].map Ty.widenLiteral)
      [.display "string", .display "string", .display "number", .display "null"] s := by
    filter_upwards [eventually_ge_atTop 1] with d hd
    obtain ⟨d, rfl⟩ := Nat.exists_eq_add_of_le' hd
    rfl
  have hkeys' : HaveKeys program s [.primitive .string, .primitive .number, .primitive .null]
      [.display "string", .display "number", .display "null"] s := by
    filter_upwards [eventually_ge_atTop 1] with d hd
    obtain ⟨d, rfl⟩ := Nat.exists_eq_add_of_le' hd
    rfl
  have hmade : ∀ᶠ d in atTop, runs program s (widen ask _) d = (.ok u, s) :=
    HaveKeys.widen_union (by simp [Ty.unionMembers?]) hkeys
  have hmerge : OnlyLiteralsMerge [(.display "string", .primitive .string),
      (.display "string", .primitive .string), (.display "number", .primitive .number),
      (.display "null", .primitive .null)] := by
    have hstring : ∃ l : Literal, Primitive.string = l.base := ⟨.string "a", rfl⟩
    simp [OnlyLiteralsMerge, hstring]
  obtain ⟨v, hv, hdescribed, hstays⟩ := (schemaOf_widen .empty hq hout).2 _ rfl s s _ hkeys hmerge
  obtain ⟨d, hd, hd'⟩ := (hv.and hmade).exists
  obtain rfl : v = u := by
    rw [hd] at hd'
    cases hd'
    rfl
  exact ⟨hparse, _, s, rfl, hv, hdescribed, hstays.2 _ rfl s s _ hkeys' (by decide)⟩

/-! ## Unions that are not described alike -/

/-- The schema of a type, and that of the widened type. -/
def schemasWidened (q : Question) : Infer (Schema × Schema) := do
  let t ← q.type
  let u ← widen ask t
  let schema ← schemaOf t
  return (schema, ← schemaOf u)

/-- A string literal, or a value of a class with the name `string`. -/
def namedStringText : String := "const x = c ? 'a' : new string()\n"

set_option maxRecDepth 10000 in
lemma namedStringText_spec : ∃ program, Source.parse .plain namedStringText = some program ∧
    ((runs program .empty (schemasWidened (.typeOf (program.nth 6))) depthBound).1.toOption.any fun
      | (.union _ _, .primitive _ _ _) => true
      | _ => false) = true :=
  exists_program (by decide +kernel)

/-- The type `U` of a list, widened, and widened again after the objects in it got their name. -/
def widenedTwice (node : Nat → Cursor) : Infer (Ty × Ty) := do
  let t ← denoted (node 26)
  let u ← widen ask t
  let _ ← denoted (node 32)
  return (u, ← widen ask u)

set_option maxRecDepth 10000 in
lemma widenedTwice_spec : ∃ program, Source.parse .plain renamedText = some program ∧
    ((runs program .empty (widenedTwice program.nth) depthBound).1.toOption.any fun
      | (u, u') => u.alternatives.length != u'.alternatives.length) = true :=
  exists_program (by decide +kernel)

/-- **Widening that is not without effect.**  A literal and a value of a class are merged if the class
has the name of the type that the literal belongs to, although one is described and the other is not.
And two lists in a widened union that are displayed alike, since what they hold got one name, become one
list when the union is widened again. -/
theorem widen_changes :
    (∃ program, Source.parse .plain namedStringText = some program ∧
      ∃ schema schema', (runs program .empty (schemasWidened (.typeOf (program.nth 6)))
        depthBound).1 = .ok (schema, schema') ∧ schema' ≠ schema) ∧
    ∃ program, Source.parse .plain renamedText = some program ∧
      ∃ u u', (runs program .empty (widenedTwice program.nth) depthBound).1 = .ok (u, u') ∧
        u.alternatives ≠ u'.alternatives := by
  constructor
  · obtain ⟨program, hparse, hspec⟩ := namedStringText_spec
    refine ⟨program, hparse, ?_⟩
    rcases hout : (runs program .empty (schemasWidened (.typeOf (program.nth 6))) depthBound).1 with
      e | ⟨schema, schema'⟩
    · rw [hout] at hspec
      cases hspec
    · rw [hout] at hspec
      refine ⟨schema, schema', rfl, ?_⟩
      rintro rfl
      cases schema' <;> cases hspec
  · obtain ⟨program, hparse, hspec⟩ := widenedTwice_spec
    refine ⟨program, hparse, ?_⟩
    rcases hout : (runs program .empty (widenedTwice program.nth) depthBound).1 with e | ⟨u, u'⟩
    · rw [hout] at hspec
      cases hspec
    · rw [hout] at hspec
      refine ⟨u, u', rfl, fun heq => ?_⟩
      simp [Except.toOption, heq] at hspec

end RouteScribe.Route
