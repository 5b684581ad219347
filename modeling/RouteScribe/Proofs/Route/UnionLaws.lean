import RouteScribe.Proofs.Route.NullableUnions
import RouteScribe.Proofs.Table

/-!
# Laws of unions

A union is made in three steps.  Unions among its parts are opened, each member gets a key, and of the
members with the same key the first is kept.  What is kept decides the result (`UnionOf`).

The first of each key can be kept of a part of the list first (`firstsBy_nested`), and again of what was
kept (`firstsBy_idempotent`).  So a union may be made inside another one, and the operations that make a
union of their argument are idempotent.  This holds as long as a member has one key: a display text
changes when an object gets a name, and then the second union is not made like the first.  And a member
that is displayed like `any` takes the place of `any`.
-/

namespace RouteScribe.Typing

open Filter Infer
open Source (Node Cursor)

/-! ## The first of each key -/

section

variable {α κ : Type} [DecidableEq κ]

/-- The values that are kept are the first ones of their keys, and the keys are in the order of their
first occurrences. -/
lemma firstOfKeys_lookup (entries : List (κ × α)) :
    (firstOfKeys [] entries).map some = (entries.map (·.1)).eraseDups.map (entries.lookup ·) := by
  induction entries using List.reverseRecOn with
  | nil => rfl
  | append_singleton entries e ih =>
    obtain ⟨k, a⟩ := e
    have hsame : (entries.map (·.1)).eraseDups.map ((entries ++ [(k, a)]).lookup ·) =
        (entries.map (·.1)).eraseDups.map (entries.lookup ·) := by
      refine List.map_congr_left fun k' hk' => ?_
      have hfound : (entries.lookup k').isSome = true := by
        obtain ⟨e, he, rfl⟩ := List.mem_map.1 (List.mem_eraseDups.1 hk')
        exact List.lookup_isSome_iff.2 ⟨e, he, beq_self_eq_true _⟩
      rw [List.lookup_append, Option.or_of_isSome hfound]
    rw [firstOfKeys_concat, List.map_append, List.map_append, ih, List.map_singleton,
      eraseDups_concat]
    simp only [List.not_mem_nil, false_or]
    split
    · rw [List.map_nil, List.append_nil, hsame]
    · rename_i hnew
      have hnone : entries.lookup k = none := by
        refine List.lookup_eq_none_iff.2 fun e he => ?_
        simpa [bne_iff_ne, beq_iff_eq] using fun h => hnew (List.mem_map.2 ⟨e, he, h.symm⟩)
      have hlast : (entries ++ [(k, a)]).lookup k = some a := by
        rw [List.lookup_append, hnone, Option.none_or]
        simp
      rw [List.map_append, List.map_singleton, List.map_singleton, hsame, hlast]

end

/-- The first of the types with each key. -/
def firstsBy (key : Ty → UnionKey) (ts : List Ty) : List Ty :=
  firstOfKeys [] (ts.map fun t => (key t, t))

section

variable {key : Ty → UnionKey} {t : Ty} {ts us : List Ty}

lemma firstsBy_concat (ts : List Ty) (t : Ty) :
    firstsBy key (ts ++ [t]) = firstsBy key ts ++ if key t ∈ ts.map key then [] else [t] := by
  have hkeys : (ts.map fun t => (key t, t)).map (·.1) = ts.map key := by
    rw [List.map_map]
    rfl
  rw [firstsBy, List.map_append, List.map_singleton, firstOfKeys_concat, hkeys]
  simp [firstsBy]

lemma firstsBy_sublist (ts : List Ty) : (firstsBy key ts).Sublist ts := by
  have hsublist := firstOfKeys_sublist [] (ts.map fun t => (key t, t))
  rwa [List.map_map, List.map_id''] at hsublist
  exact fun _ => rfl

/-- No key is lost. -/
lemma mem_map_firstsBy {k : UnionKey} : k ∈ (firstsBy key ts).map key ↔ k ∈ ts.map key := by
  induction ts using List.reverseRecOn with
  | nil => rfl
  | append_singleton ts t ih =>
    rw [firstsBy_concat, List.map_append, List.mem_append, ih, List.map_append, List.mem_append]
    split
    · rename_i hold
      simp only [List.map_nil, List.not_mem_nil, or_false, List.map_cons, List.mem_singleton]
      exact ⟨.inl, fun h => h.elim id fun heq => heq ▸ hold⟩
    · rfl

/-- The first of each key can be kept of the back of a list first. -/
lemma firstsBy_append_firstsBy (xs ys : List Ty) :
    firstsBy key (xs ++ firstsBy key ys) = firstsBy key (xs ++ ys) := by
  induction ys using List.reverseRecOn with
  | nil => rfl
  | append_singleton ys y ih =>
    rw [firstsBy_concat, ← List.append_assoc, ← List.append_assoc, firstsBy_concat (xs ++ ys)]
    split
    · rename_i hold
      have hmem : key y ∈ (xs ++ ys).map key := by
        rw [List.map_append]
        exact List.mem_append_right _ hold
      rw [if_pos hmem, List.append_nil, List.append_nil, ih]
    · have hkeys : key y ∈ (xs ++ firstsBy key ys).map key ↔ key y ∈ (xs ++ ys).map key := by
        simp only [List.map_append, List.mem_append, mem_map_firstsBy]
      rw [firstsBy_concat, ih]
      simp only [hkeys]

/-- **The first of each key can be kept of a part of a list first.** -/
lemma firstsBy_nested (xs ys zs : List Ty) :
    firstsBy key (xs ++ firstsBy key ys ++ zs) = firstsBy key (xs ++ ys ++ zs) := by
  induction zs using List.reverseRecOn with
  | nil => rw [List.append_nil, List.append_nil, firstsBy_append_firstsBy]
  | append_singleton zs z ih =>
    have hkeys : key z ∈ (xs ++ firstsBy key ys ++ zs).map key ↔ key z ∈ (xs ++ ys ++ zs).map key := by
      simp only [List.map_append, List.mem_append, mem_map_firstsBy]
    rw [← List.append_assoc, ← List.append_assoc, firstsBy_concat, firstsBy_concat, ih]
    simp only [hkeys]

/-- To keep the first of each key again changes nothing. -/
lemma firstsBy_idempotent (ts : List Ty) : firstsBy key (firstsBy key ts) = firstsBy key ts :=
  firstsBy_append_firstsBy [] ts

/-- What is kept of the front of a list is kept of the list. -/
lemma mem_firstsBy_append_left (ht : t ∈ firstsBy key ts) (us : List Ty) :
    t ∈ firstsBy key (ts ++ us) := by
  induction us using List.reverseRecOn with
  | nil => rwa [List.append_nil]
  | append_singleton us u ih =>
    rw [← List.append_assoc, firstsBy_concat]
    exact List.mem_append_left _ ih

/-- What is kept of the back of a list is kept of the list if its key is not in the front. -/
lemma mem_firstsBy_append_right (ht : t ∈ firstsBy key us) (hnew : key t ∉ ts.map key) :
    t ∈ firstsBy key (ts ++ us) := by
  induction us using List.reverseRecOn with
  | nil => cases ht
  | append_singleton us u ih =>
    rw [firstsBy_concat] at ht
    rw [← List.append_assoc, firstsBy_concat]
    rcases List.mem_append.1 ht with ht | ht
    · exact List.mem_append_left _ (ih ht)
    · split at ht
      · cases ht
      · rename_i hfresh
        obtain rfl := List.mem_singleton.1 ht
        have hnot : key t ∉ (ts ++ us).map key := by
          rw [List.map_append, List.mem_append]
          exact not_or.2 ⟨hnew, hfresh⟩
        rw [if_neg hnot]
        exact List.mem_append_right _ List.mem_cons_self

lemma firstsBy_ne_nil (h : ts ≠ []) : firstsBy key ts ≠ [] := by
  intro hnil
  obtain ⟨t, ht⟩ := List.exists_mem_of_ne_nil ts h
  have hkept := mem_map_firstsBy.2 (List.mem_map_of_mem (f := key) ht)
  rw [hnil] at hkept
  cases hkept

end

/-! ## What is kept decides the union -/

namespace Ty

/-- A type is flat: its members are no unions, and there is at least one. -/
def IsFlat (t : Ty) : Prop := t.alternatives ≠ [] ∧ ∀ m ∈ t.alternatives, m.unionMembers? = none

instance (t : Ty) : Decidable t.IsFlat :=
  decidable_of_iff (t.alternatives.isEmpty = false ∧
    ∀ m ∈ t.alternatives, m.unionMembers?.isNone = true) (by simp [IsFlat])

variable {t : Ty} {ts : List Ty}

lemma isFlat_of_single (h : t.unionMembers? = none) : t.IsFlat := by
  rw [IsFlat, alternatives_of_single h]
  exact ⟨List.cons_ne_nil _ _, fun m hm => (List.mem_singleton.1 hm).symm ▸ h⟩

lemma ofAlternatives_of_any (h : ∃ t ∈ ts, t.isAny = true) : ofAlternatives ts = any := by
  obtain ⟨t, ht, hany⟩ := h
  match ts, ht with
  | t' :: rest, ht =>
    have hfound : (t' :: rest).any isAny = true := List.any_eq_true.2 ⟨t, ht, hany⟩
    simp only [ofAlternatives, hfound, if_true]

end Ty

/-- The union of members that are kept: nothing, if there are none; any type at all, if that is one of
them; the only member; or a union of several members. -/
inductive UnionOf : List Ty → Ty → Prop
  | never : UnionOf [] (.primitive .never)
  | any {kept : List Ty} : (∃ m ∈ kept, m.isAny = true) → UnionOf kept .any
  | single {m : Ty} : m.isAny = false → UnionOf [m] m
  | union {kept : List Ty} : 2 ≤ kept.length →
    (∀ m ∈ kept, m.isAny = false ∧ m.unionMembers? = none) → UnionOf kept (.union kept)

section

variable {key : Ty → UnionKey} {kept ts us xs ys zs : List Ty} {t u v : Ty}

lemma unionOf_ofAlternatives (h : ∀ m ∈ kept, m.unionMembers? = none) :
    UnionOf kept (.ofAlternatives kept) := by
  by_cases hany : ∃ m ∈ kept, m.isAny = true
  · rw [Ty.ofAlternatives_of_any hany]
    exact .any hany
  · have hnone : ∀ m ∈ kept, m.isAny = false := by
      simpa using hany
    match kept with
    | [] => exact .never
    | [m] =>
      have hm : m.isAny = false := hnone m List.mem_cons_self
      have hsingle : Ty.ofAlternatives [m] = m := by
        simp [Ty.ofAlternatives, hm]
      exact hsingle.symm ▸ .single hm
    | m :: m' :: rest =>
      rw [ofAlternatives_of_two (by simp) hnone]
      exact .union (by simp) fun m hm => ⟨hnone m hm, h m hm⟩

lemma UnionOf.isFlat (h : UnionOf kept u) (hflat : ∀ m ∈ kept, m.unionMembers? = none) :
    u.IsFlat := by
  cases h with
  | never => exact Ty.isFlat_of_single rfl
  | any _ => exact Ty.isFlat_of_single rfl
  | single _ => exact Ty.isFlat_of_single (hflat u List.mem_cons_self)
  | union hlength hmembers =>
    refine ⟨fun hnil => ?_, fun m hm => (hmembers m hm).2⟩
    have hnone : kept = [] := hnil
    rw [hnone] at hlength
    cases hlength

/-- A union has the members that are kept, unless one of them is any type at all. -/
lemma UnionOf.alternatives_or (h : UnionOf kept u) (hne : kept ≠ [])
    (hflat : ∀ m ∈ kept, m.unionMembers? = none) :
    u.alternatives = kept ∨ u = .any ∧ ∃ m ∈ kept, m.isAny = true := by
  cases h with
  | never => exact absurd rfl hne
  | any hany => exact .inr ⟨rfl, hany⟩
  | single _ => exact .inl (Ty.alternatives_of_single (hflat u List.mem_cons_self))
  | union _ _ => exact .inl rfl

/-- The union of some types that are no unions, if a function gives their keys. -/
def unionBy (key : Ty → UnionKey) (ts : List Ty) : Ty := .ofAlternatives (firstsBy key ts)

lemma unionOf_unionBy (h : ∀ t ∈ ts, t.unionMembers? = none) :
    UnionOf (firstsBy key ts) (unionBy key ts) :=
  unionOf_ofAlternatives fun m hm => h m ((firstsBy_sublist ts).subset hm)

/-- Any type at all is not lost behind a list, if only such types have its key there. -/
lemma unionBy_append_of_any (h : t ∈ firstsBy key us) (hany : t.isAny = true)
    (hfront : ∀ x ∈ xs, key x = key t → x.isAny = true) : unionBy key (xs ++ us) = .any := by
  refine Ty.ofAlternatives_of_any ?_
  by_cases hold : key t ∈ xs.map key
  · obtain ⟨x, hx, hkey⟩ := List.mem_map.1 (mem_map_firstsBy.2 hold)
    exact ⟨x, mem_firstsBy_append_left hx us, hfront x ((firstsBy_sublist xs).subset hx) hkey⟩
  · exact ⟨t, mem_firstsBy_append_right h hold, hany⟩

/-- **A union may be made inside another one.** -/
lemma unionBy_nested (xs zs : List Ty) (hne : ys ≠ []) (hflat : ∀ y ∈ ys, y.unionMembers? = none)
    (hany : unionBy key ys = .any → ∀ x ∈ xs, x.isAny = false →
      key x ≠ key .any ∧ ∀ y ∈ ys, y.isAny = true → key x ≠ key y) :
    unionBy key (xs ++ (unionBy key ys).alternatives ++ zs) = unionBy key (xs ++ ys ++ zs) := by
  have hkept : ∀ m ∈ firstsBy key ys, m.unionMembers? = none := fun m hm =>
    hflat m ((firstsBy_sublist ys).subset hm)
  rcases (unionOf_unionBy hflat).alternatives_or (firstsBy_ne_nil hne) hkept with
    heq | ⟨heq, y, hy, hyany⟩
  · rw [heq, unionBy, unionBy, firstsBy_nested]
  · have hfront := hany heq
    have hinner : unionBy key (xs ++ ([Ty.any] ++ zs)) = .any :=
      unionBy_append_of_any (t := .any) (mem_firstsBy_append_left List.mem_cons_self zs) rfl
        fun x hx hkey => by
          by_contra hnot
          exact (hfront x hx (by simpa using hnot)).1 hkey
    have houter : unionBy key (xs ++ (ys ++ zs)) = .any :=
      unionBy_append_of_any (mem_firstsBy_append_left hy zs) hyany fun x hx hkey => by
        by_contra hnot
        exact (hfront x hx (by simpa using hnot)).2 y ((firstsBy_sublist ys).subset hy) hyany hkey
    rw [heq, List.append_assoc, List.append_assoc, houter]
    exact hinner

end

/-! ## Runs -/

section

variable {ask : Answers} {c : Context} {s s' : Store} {ts : List Ty} {u : Ty} {key : Ty → UnionKey}

/-- Where a key cannot be worked out, no item has a key. -/
lemma exec_keyed_error {α κ : Type} {key : α → Infer κ} {l : List α} {e : Failure}
    (h : (l.mapM key).exec c s = (.error e, s')) :
    (l.mapM fun a => do return (← key a, a)).exec c s = (.error e, s') := by
  induction l generalizing s with
  | nil => cases h
  | cons a l ih =>
    rw [List.mapM_cons] at h ⊢
    rcases hk : (key a).exec c s with ⟨e' | k, s₁⟩
    · rw [exec_bind_error hk] at h
      cases h
      rw [exec_bind_error (exec_bind_error hk)]
    · rw [exec_bind_ok hk] at h
      have hpair : (do return (← key a, a) : Infer (κ × α)).exec c s = (.ok (k, a), s₁) :=
        exec_bind_ok hk
      rw [exec_bind_ok hpair]
      rcases hrest : (l.mapM key).exec c s₁ with ⟨e' | ks, s₂⟩
      · rw [exec_bind_error hrest] at h
        cases h
        rw [exec_bind_error (ih hrest)]
      · rw [exec_bind_ok hrest] at h
        cases h

/-- The keys of some types are worked out one after the other, and are those that a function gives. -/
def HasKeys (ask : Answers) (key : Ty → UnionKey) (c : Context) (s : Store) (ts : List Ty)
    (s' : Store) : Prop :=
  (ts.mapM (unionKey ask)).exec c s = (.ok (ts.map key), s')

lemma HasKeys.exec_makeUnion (ts : List Ty) (h : HasKeys ask key c s (ts.flatMap Ty.alternatives) s') :
    (makeUnion ask ts).exec c s = (.ok (unionBy key (ts.flatMap Ty.alternatives)), s') := by
  have hzip : ((ts.flatMap Ty.alternatives).map key).zip (ts.flatMap Ty.alternatives) =
      (ts.flatMap Ty.alternatives).map fun t => (key t, t) := by
    have hmapped : ((ts.flatMap Ty.alternatives).map key).zip ((ts.flatMap Ty.alternatives).map id) =
        (ts.flatMap Ty.alternatives).map fun t => (key t, id t) := List.zip_map'
    rwa [List.map_id] at hmapped
  rw [makeUnion, exec_bind_ok (exec_keyed h).1, exec_pure, hzip]
  rfl

/-! ### Operations that make a union of their argument -/

/-- The members of a union that do not only say that a value may be missing. -/
def presentMembers (t : Ty) : List Ty := (t.unionMembers?.getD []).filter fun m => !m.isNullish

lemma presentMembers_of_single (h : u.unionMembers? = none) : presentMembers u = [] := by
  rw [presentMembers, h]
  rfl

lemma exec_stripNullish_of_single (h : u.unionMembers? = none) :
    (stripNullish ask u).exec c s = (.ok u, s) := by
  cases u with
  | union members => cases h
  | _ => rfl

lemma HasKeys.exec_stripNullish {members : List Ty} (hflat : (Ty.union members).IsFlat)
    (h : HasKeys ask key c s (presentMembers (.union members)) s') :
    (stripNullish ask (.union members)).exec c s =
      (.ok (unionBy key (presentMembers (.union members))), s') := by
  have hpresent : (presentMembers (.union members)).flatMap Ty.alternatives =
      presentMembers (.union members) :=
    Ty.flatMap_alternatives fun m hm => hflat.2 m (List.mem_filter.1 hm).1
  have hmade := HasKeys.exec_makeUnion (presentMembers (.union members)) (hpresent.symm ▸ h)
  rwa [hpresent] at hmade

/-- There is nothing to leave out of a union of members that were kept before. -/
lemma stripNullish_of_unionOf {kept : List Ty} {v : Ty} (hunion : UnionOf kept v)
    (hkept : ∀ m ∈ kept, m.isNullish = false ∧ m.unionMembers? = none)
    (hfirsts : firstsBy key kept = kept) (h : HasKeys ask key c s (presentMembers v) s') :
    (stripNullish ask v).exec c s = (.ok v, s') := by
  have hsingle (hnone : v.unionMembers? = none) : (stripNullish ask v).exec c s = (.ok v, s') := by
    rw [HasKeys, presentMembers_of_single hnone] at h
    cases h
    exact exec_stripNullish_of_single hnone
  have hflat := hunion.isFlat fun m hm => (hkept m hm).2
  cases hunion with
  | never => exact hsingle rfl
  | any _ => exact hsingle rfl
  | single _ => exact hsingle (hkept v List.mem_cons_self).2
  | union hlength hall =>
    have hpresent : presentMembers (.union kept) = kept :=
      List.filter_eq_self.2 fun m hm => by rw [(hkept m hm).1]; rfl
    have hagain : unionBy key kept = .union kept := by
      rw [unionBy, hfirsts, ofAlternatives_of_two hlength fun m hm => (hall m hm).1]
    have hmade := h.exec_stripNullish hflat
    rwa [hpresent, hagain] at hmade

/-- **To leave out `null` and `undefined` again changes nothing.** -/
lemma stripNullish_idempotent {c' : Context} {s₁ s₂ s₃ : Store} {v : Ty} (hflat : u.IsFlat)
    (hfirst : HasKeys ask key c s (presentMembers u) s₁)
    (hv : (stripNullish ask u).exec c s = (.ok v, s₁))
    (hsecond : HasKeys ask key c' s₂ (presentMembers v) s₃) :
    (stripNullish ask v).exec c' s₂ = (.ok v, s₃) := by
  cases u with
  | union members =>
    have hpresent : ∀ m ∈ presentMembers (.union members),
        m.isNullish = false ∧ m.unionMembers? = none :=
      fun m hm => ⟨by simpa using (List.mem_filter.1 hm).2, hflat.2 m (List.mem_filter.1 hm).1⟩
    rw [hfirst.exec_stripNullish hflat] at hv
    cases hv
    exact stripNullish_of_unionOf (unionOf_unionBy fun m hm => (hpresent m hm).2)
      (fun m hm => hpresent m ((firstsBy_sublist _).subset hm)) (firstsBy_idempotent _) hsecond
  | _ =>
    cases hv
    rw [HasKeys] at hsecond
    cases hsecond
    rfl

/-- **To add `undefined` again changes nothing.** -/
lemma withUndefined_idempotent {c' : Context} {s₁ s₂ s₃ : Store} {v : Ty} (hflat : u.IsFlat)
    (hfirst : HasKeys ask key c s (u.alternatives ++ [Ty.undefined]) s₁)
    (hv : (withUndefined ask u).exec c s = (.ok v, s₁))
    (hsecond : HasKeys ask key c' s₂ (v.alternatives ++ [Ty.undefined]) s₃) :
    (withUndefined ask v).exec c' s₂ = (.ok v, s₃) := by
  have hmembers (t : Ty) : [t, .undefined].flatMap Ty.alternatives = t.alternatives ++ [Ty.undefined] :=
    rfl
  have hmade : (withUndefined ask u).exec c s = _ := hfirst.exec_makeUnion [u, .undefined]
  have hagain : (withUndefined ask v).exec c' s₂ = _ := hsecond.exec_makeUnion [v, .undefined]
  rw [hmade] at hv
  have hv : unionBy key (u.alternatives ++ [Ty.undefined]) = v := Except.ok.inj (Prod.mk.inj hv).1
  have hnone : ∀ m ∈ u.alternatives ++ [Ty.undefined], m.unionMembers? = none := by
    intro m hm
    rcases List.mem_append.1 hm with hm | hm
    · exact hflat.2 m hm
    · rw [List.mem_singleton.1 hm]
      rfl
  have hnested : unionBy key
      ([] ++ (unionBy key (u.alternatives ++ [Ty.undefined])).alternatives ++ [Ty.undefined]) = _ :=
    unionBy_nested [] [Ty.undefined] (by simp) hnone fun _ x hx => by cases hx
  have hlast : unionBy key (u.alternatives ++ [Ty.undefined] ++ [Ty.undefined]) =
      unionBy key (u.alternatives ++ [Ty.undefined]) := by
    rw [unionBy, firstsBy_concat, if_pos (by simp), List.append_nil, unionBy]
  rw [List.nil_append, List.nil_append, hv, hlast, hv] at hnested
  rw [hagain, hmembers, hnested]

end

/-! ## The laws -/

/-- Members are kept if they are the first of their keys, in the order in which the keys first occur. -/
def KeepsFirsts (keys : List UnionKey) (members kept : List Ty) : Prop :=
  ∃ firstKeys, FirstOccurrences firstKeys keys ∧
    kept.map some = firstKeys.map ((keys.zip members).lookup ·)

lemma keepsFirsts_firstOfKeys {keys : List UnionKey} {members : List Ty}
    (h : keys.length = members.length) :
    KeepsFirsts keys members (firstOfKeys [] (keys.zip members)) := by
  refine ⟨keys.eraseDups, firstOccurrences_eraseDups keys, ?_⟩
  have hkeys : (keys.zip members).map (·.1) = keys := List.map_fst_zip h.le
  rw [firstOfKeys_lookup, hkeys]

section

variable {ask : Answers} {c : Context} {s s' : Store} {ts : List Ty}

lemma Ty.IsFlat.of_mem_flatMap (h : ∀ t ∈ ts, t.IsFlat) {m : Ty}
    (hm : m ∈ ts.flatMap Ty.alternatives) : m.unionMembers? = none := by
  obtain ⟨t, ht, hmt⟩ := List.mem_flatMap.1 hm
  exact (h t ht).2 m hmt

lemma Ty.IsFlat.flatMap_ne_nil (h : ∀ t ∈ ts, t.IsFlat) (hne : ts ≠ []) :
    ts.flatMap Ty.alternatives ≠ [] := by
  obtain ⟨t, ht⟩ := List.exists_mem_of_ne_nil ts hne
  obtain ⟨m, hm⟩ := List.exists_mem_of_ne_nil _ (h t ht).1
  exact List.ne_nil_of_mem (List.mem_flatMap.2 ⟨t, ht, hm⟩)

/-- A union keeps the first member of each key, and is made of what is kept. -/
lemma exists_kept_of_keys (hflat : ∀ t ∈ ts, t.IsFlat) {keys : List UnionKey}
    (hkeys : ((ts.flatMap Ty.alternatives).mapM (unionKey ask)).exec c s = (.ok keys, s')) :
    ∃ kept u, (makeUnion ask ts).exec c s = (.ok u, s') ∧
      KeepsFirsts keys (ts.flatMap Ty.alternatives) kept ∧ UnionOf kept u ∧ u.IsFlat := by
  obtain ⟨hkeyed, hlength⟩ := exec_keyed hkeys
  obtain ⟨kept, hkept⟩ : ∃ kept, firstOfKeys [] (keys.zip (ts.flatMap Ty.alternatives)) = kept :=
    ⟨_, rfl⟩
  have hsublist := firstOfKeys_sublist [] (keys.zip (ts.flatMap Ty.alternatives))
  rw [hkept, List.map_snd_zip hlength.ge] at hsublist
  have hnone : ∀ m ∈ kept, m.unionMembers? = none := fun m hm =>
    Ty.IsFlat.of_mem_flatMap hflat (hsublist.subset hm)
  have hunion := unionOf_ofAlternatives hnone
  have hmade : (makeUnion ask ts).exec c s = (.ok (.ofAlternatives kept), s') := by
    rw [makeUnion, exec_bind_ok hkeyed, exec_pure, hkept]
  exact ⟨kept, .ofAlternatives kept, hmade, hkept ▸ keepsFirsts_firstOfKeys hlength, hunion,
    hunion.isFlat hnone⟩

/-- A union that is made of another one is the union of all members. -/
lemma exists_union_of_nested {key : Ty → UnionKey} {xs ys zs : List Ty} {u : Ty} {s₁ : Store}
    (hflat : ∀ y ∈ ys, y.IsFlat) (hne : ys ≠ [])
    (hkeys : HasKeys ask key c s (ys.flatMap Ty.alternatives) s₁)
    (hu : (makeUnion ask ys).exec c s = (.ok u, s₁))
    (hany : u = .any → ∀ x ∈ xs.flatMap Ty.alternatives, x.isAny = false →
      key x ≠ key .any ∧ ∀ y ∈ ys.flatMap Ty.alternatives, y.isAny = true → key x ≠ key y)
    {c₂ c₄ : Context} {s₂ s₃ s₄ s₅ : Store}
    (hnested : HasKeys ask key c₂ s₂ ((xs ++ [u] ++ zs).flatMap Ty.alternatives) s₃)
    (hwhole : HasKeys ask key c₄ s₄ ((xs ++ ys ++ zs).flatMap Ty.alternatives) s₅) :
    ∃ w, (makeUnion ask (xs ++ [u] ++ zs)).exec c₂ s₂ = (.ok w, s₃) ∧
      (makeUnion ask (xs ++ ys ++ zs)).exec c₄ s₄ = (.ok w, s₅) := by
  have hmade := hkeys.exec_makeUnion ys
  rw [hu] at hmade
  obtain rfl : u = unionBy key (ys.flatMap Ty.alternatives) := Except.ok.inj (Prod.mk.inj hmade).1
  have heq := unionBy_nested (xs.flatMap Ty.alternatives) (zs.flatMap Ty.alternatives)
    (Ty.IsFlat.flatMap_ne_nil hflat hne) (fun m => Ty.IsFlat.of_mem_flatMap hflat) hany
  have hinner := hnested.exec_makeUnion (xs ++ [unionBy key (ys.flatMap Ty.alternatives)] ++ zs)
  have houter := hwhole.exec_makeUnion (xs ++ ys ++ zs)
  simp only [List.flatMap_append, List.flatMap_singleton] at hinner houter
  rw [← heq] at houter
  exact ⟨_, hinner, houter⟩

end

/-- **The laws of unions.**  Let the types be flat.  A union of types can be made exactly if the keys of
their members can be worked out.  It keeps the first member of each key, is made of what is kept
(`UnionOf`), and is flat.

Let a function give the keys of all members that the compared unions ask for.  Then a union of some
types, at least one, may be made inside another one.  If it is any type at all, no other type in front
may have its key, or that of any type at all that it was made of.  To leave out `null` and `undefined`
twice, and to add `undefined` twice, is to do it once. -/
theorem unions_of_keys (ask : Answers) :
    (∀ c s ts, (∀ t ∈ ts, t.IsFlat) →
      (∀ keys s', ((ts.flatMap Ty.alternatives).mapM (unionKey ask)).exec c s = (.ok keys, s') →
        ∃ kept u, (makeUnion ask ts).exec c s = (.ok u, s') ∧
          KeepsFirsts keys (ts.flatMap Ty.alternatives) kept ∧ UnionOf kept u ∧ u.IsFlat) ∧
      ∀ e s', ((ts.flatMap Ty.alternatives).mapM (unionKey ask)).exec c s = (.error e, s') →
        (makeUnion ask ts).exec c s = (.error e, s')) ∧
    (∀ key xs ys zs c s s₁ u, (∀ y ∈ ys, y.IsFlat) → ys ≠ [] →
      HasKeys ask key c s (ys.flatMap Ty.alternatives) s₁ →
      (makeUnion ask ys).exec c s = (.ok u, s₁) →
      (u = .any → ∀ x ∈ xs.flatMap Ty.alternatives, x.isAny = false →
        key x ≠ key .any ∧ ∀ y ∈ ys.flatMap Ty.alternatives, y.isAny = true → key x ≠ key y) →
      ∀ c₂ s₂ s₃ c₄ s₄ s₅,
        HasKeys ask key c₂ s₂ ((xs ++ [u] ++ zs).flatMap Ty.alternatives) s₃ →
        HasKeys ask key c₄ s₄ ((xs ++ ys ++ zs).flatMap Ty.alternatives) s₅ →
        ∃ w, (makeUnion ask (xs ++ [u] ++ zs)).exec c₂ s₂ = (.ok w, s₃) ∧
          (makeUnion ask (xs ++ ys ++ zs)).exec c₄ s₄ = (.ok w, s₅)) ∧
    (∀ key u v c s s₁ c₂ s₂ s₃, u.IsFlat → HasKeys ask key c s (presentMembers u) s₁ →
      (stripNullish ask u).exec c s = (.ok v, s₁) → HasKeys ask key c₂ s₂ (presentMembers v) s₃ →
      (stripNullish ask v).exec c₂ s₂ = (.ok v, s₃)) ∧
    ∀ key u v c s s₁ c₂ s₂ s₃, u.IsFlat →
      HasKeys ask key c s (u.alternatives ++ [Ty.undefined]) s₁ →
      (withUndefined ask u).exec c s = (.ok v, s₁) →
      HasKeys ask key c₂ s₂ (v.alternatives ++ [Ty.undefined]) s₃ →
      (withUndefined ask v).exec c₂ s₂ = (.ok v, s₃) := by
  refine ⟨fun c s ts hflat => ⟨fun keys s' hkeys => exists_kept_of_keys hflat hkeys,
    fun e s' hkeys => ?_⟩, ?_, ?_, ?_⟩
  · rw [makeUnion, exec_bind_error (exec_keyed_error hkeys)]
  · intro key xs ys zs c s s₁ u hflat hne hkeys hu hany c₂ s₂ s₃ c₄ s₄ s₅ hnested hwhole
    exact exists_union_of_nested hflat hne hkeys hu hany hnested hwhole
  · intro key u v c s s₁ c₂ s₂ s₃ hflat hfirst hv hsecond
    exact stripNullish_idempotent hflat hfirst hv hsecond
  · intro key u v c s s₁ c₂ s₂ s₃ hflat hfirst hv hsecond
    exact withUndefined_idempotent hflat hfirst hv hsecond

/-- The key of a primitive type is its name. -/
def primitiveKey : Ty → UnionKey
  | .primitive p => .display p.name
  | _ => .object 0

lemma hasKeys_primitives (root : Source.Cursor) (s : Store) (ps : List Primitive) :
    HasKeys ask primitiveKey (Context.ofRoot 1 root) s (ps.map Ty.primitive) s := by
  rw [HasKeys]
  refine exec_mapM fun t ht => ?_
  obtain ⟨p, -, rfl⟩ := List.mem_map.1 ht
  rfl

/-- A union of primitive types, one that is nested, one that has nothing to strip, and one that may be
left out already. -/
theorem unions_of_primitives : ∃ c : Context,
    (∃ kept w,
      (makeUnion ask [Ty.string, .union [Ty.string, Ty.number]]).exec c .empty = (.ok w, .empty) ∧
      KeepsFirsts [.display "string", .display "string", .display "number"]
        [Ty.string, Ty.string, Ty.number] kept ∧ UnionOf kept w ∧ w.IsFlat) ∧
    (∃ w, (makeUnion ask ([Ty.string] ++ [.union [Ty.string, Ty.number]] ++ [Ty.undefined])).exec c
        .empty = (.ok w, .empty) ∧
      (makeUnion ask ([Ty.string] ++ [Ty.string, Ty.number] ++ [Ty.undefined])).exec c .empty =
        (.ok w, .empty)) ∧
    (stripNullish ask (.union [Ty.string, Ty.number])).exec c .empty =
      (.ok (.union [Ty.string, Ty.number]), .empty) ∧
    (withUndefined ask (.union [Ty.string, Ty.number, Ty.undefined])).exec c .empty =
      (.ok (.union [Ty.string, Ty.number, Ty.undefined]), .empty) := by
  obtain ⟨hshape, hnested, hstrip, hundefined⟩ := unions_of_keys ask
  obtain ⟨c, hkeys⟩ : ∃ c : Context, ∀ ps : List Primitive,
      HasKeys ask primitiveKey c .empty (ps.map Ty.primitive) .empty :=
    ⟨_, hasKeys_primitives (.ofRoot default) .empty⟩
  have htwo : HasKeys ask primitiveKey c .empty [Ty.string, Ty.number] .empty :=
    hkeys [.string, .number]
  have hthree : HasKeys ask primitiveKey c .empty [Ty.string, Ty.number, Ty.undefined] .empty :=
    hkeys [.string, .number, .undefined]
  have hunion : unionBy primitiveKey [Ty.string, Ty.number] = .union [Ty.string, Ty.number] := by
    cbv
  have hunion' : unionBy primitiveKey [Ty.string, Ty.number, Ty.undefined] =
      .union [Ty.string, Ty.number, Ty.undefined] := by
    cbv
  have hflat : (Ty.union [Ty.string, Ty.number]).IsFlat := by
    decide
  have hflat' : (Ty.union [Ty.string, Ty.number, Ty.undefined]).IsFlat := by
    decide
  have hmade := htwo.exec_makeUnion [Ty.string, Ty.number]
  have hstripped := HasKeys.exec_stripNullish hflat' htwo
  have hadded := hthree.exec_makeUnion [.union [Ty.string, Ty.number], Ty.undefined]
  rw [show [Ty.string, Ty.number].flatMap Ty.alternatives = [Ty.string, Ty.number] from rfl,
    hunion] at hmade
  rw [show presentMembers (.union [Ty.string, Ty.number, Ty.undefined]) = [Ty.string, Ty.number] from rfl,
    hunion] at hstripped
  rw [show [.union [Ty.string, Ty.number], Ty.undefined].flatMap Ty.alternatives =
    [Ty.string, Ty.number, Ty.undefined] from rfl, hunion'] at hadded
  have hprimitives : ∀ y ∈ [Ty.string, Ty.number], y.IsFlat := by
    decide
  have hmixed : ∀ y ∈ [Ty.string, .union [Ty.string, Ty.number]], y.IsFlat := by
    decide
  have hwhole : HasKeys ask primitiveKey c .empty [Ty.string, Ty.string, Ty.number, Ty.undefined]
      .empty := hkeys [.string, .string, .number, .undefined]
  refine ⟨c, (hshape c .empty _ hmixed).1 _ .empty (hkeys [.string, .string, .number]),
    hnested primitiveKey [Ty.string] [Ty.string, Ty.number] [Ty.undefined] c .empty .empty _
      hprimitives (List.cons_ne_nil _ _) htwo hmade (fun h => by cases h) c .empty .empty c .empty .empty
      hwhole hwhole,
    hstrip primitiveKey _ _ c .empty .empty c .empty .empty hflat' htwo hstripped htwo,
    hundefined primitiveKey _ _ c .empty .empty c .empty .empty hflat hthree hadded ?_⟩
  exact hkeys [.string, .number, .undefined, .undefined]

/-- A class with the name `any`, and unions whose objects get a name while the unions are displayed. -/
def namingText : String :=
  "interface O \x7b e: \x7b a: 0 \x7d; g: \x7b q: typeof w; r: \x7b p: I \x7d \x7d \x7d
let o: O, e = o.e, w = c ? [e] : c ? [new I] : [o.g]
type I = typeof e
o.g.q
new any
"

/-- The type of an expression, the union that is made of it, and the one that is made of this. -/
def madeTwice (f : Ty → Infer Ty) (c : Cursor) : Infer (Ty × Ty) := do
  let t ← typeOf c
  let u ← f t
  return (u, ← f u)

/-- Two unions with different numbers of members. -/
def lengthsDiffer : Ty × Ty → Bool
  | (u, v) => u.alternatives.length != v.alternatives.length

/-- What is made again is another type. -/
def Changes (program : Node) (f : Ty → Infer Ty) (c : Cursor) : Prop :=
  ∃ t s u s₁ v s₂, runs program .empty (typeOf c) depthBound = (.ok t, s) ∧
    runs program s (f t) depthBound = (.ok u, s₁) ∧
    runs program s₁ (f u) depthBound = (.ok v, s₂) ∧ u ≠ v

lemma changes_of_madeTwice {program : Node} {f : Ty → Infer Ty} {c : Cursor}
    (h : ((runs program .empty (madeTwice f c) depthBound).1.toOption.any lengthsDiffer) = true) :
    Changes program f c := by
  obtain ⟨⟨u, v⟩, s₂, hrun, hdiffer⟩ := Outcome.exists_ok_of_any h
  obtain ⟨t, s, ht, hrest⟩ := exec_bind_eq_ok.1 hrun
  obtain ⟨u', s₁, hu, hrest⟩ := exec_bind_eq_ok.1 hrest
  obtain ⟨v', s₂', hv, hpure⟩ := exec_bind_eq_ok.1 hrest
  cases hpure
  refine ⟨t, s, u, s₁, v, s₂, ht, hu, hv, ?_⟩
  rintro rfl
  simp [lengthsDiffer] at hdiffer

/-- A type beside the union of `unknown`, and beside `unknown` itself. -/
def besideUnknown (c : Cursor) : Infer (Ty × Ty) := do
  let t ← typeOf c
  let inner ← makeUnion ask [.primitive .unknown]
  return (← makeUnion ask [t, inner], ← makeUnion ask [t, .primitive .unknown])

/-- Of two unions only the second is any type at all. -/
def secondIsAny : Ty × Ty → Bool
  | (u, v) => !u.isAny && v.isAny

/-- A type makes another union with the union of `unknown`, that is any type at all, than with
`unknown`. -/
def HidesAny (program : Node) (c : Cursor) : Prop :=
  ∃ t s s₁ u s₂ v s₃, runs program .empty (typeOf c) depthBound = (.ok t, s) ∧
    runs program s (makeUnion ask [.primitive .unknown]) depthBound = (.ok .any, s₁) ∧
    runs program s₁ (makeUnion ask [t, .any]) depthBound = (.ok u, s₂) ∧
    runs program s₂ (makeUnion ask [t, .primitive .unknown]) depthBound = (.ok v, s₃) ∧
    u.isAny = false ∧ v.isAny = true

lemma hidesAny_of_besideUnknown {program : Node} {c : Cursor}
    (h : ((runs program .empty (besideUnknown c) depthBound).1.toOption.any secondIsAny) = true) :
    HidesAny program c := by
  obtain ⟨⟨u, v⟩, s₃, hrun, hsecond⟩ := Outcome.exists_ok_of_any h
  obtain ⟨t, s, ht, hrest⟩ := exec_bind_eq_ok.1 hrun
  obtain ⟨inner, s₁, hinner, hrest⟩ := exec_bind_eq_ok.1 hrest
  obtain ⟨u', s₂, hu, hrest⟩ := exec_bind_eq_ok.1 hrest
  obtain ⟨v', s₃', hv, hpure⟩ := exec_bind_eq_ok.1 hrest
  cases hpure
  obtain ⟨hunot, hvany⟩ : u.isAny = false ∧ v.isAny = true := by
    simpa [secondIsAny] using hsecond
  obtain ⟨hinnerAny, -⟩ := Prod.mk.inj (hinner.symm.trans (rfl :
    runs program s (makeUnion ask [.primitive .unknown]) depthBound = (.ok .any, s)))
  cases hinnerAny
  exact ⟨t, s, s₁, u, s₂, v, s₃, ht, hinner, hu, hv, hunot, hvany⟩

set_option maxRecDepth 10000 in
/-- **Where keys change, or a class is called `any`, the laws fail.**  A value of such a class takes the
place of any type at all, and its union with `unknown` depends on whether `unknown` is put into a union
first.  The union of a union, and what is left without `null`, or becomes with `undefined`, can change
when it is made again. -/
theorem laws_fail_of_naming : ∃ program, Source.parse .plain namingText = some program ∧
    HidesAny program (program.nth 108) ∧
    Changes program (fun t => makeUnion ask [t]) (program.nth 100) ∧
    Changes program (stripNullish ask) (program.nth 100) ∧
    Changes program (withUndefined ask) (program.nth 100) := by
  obtain ⟨program, hparse, hhidden, hmade, hstripped, hadded⟩ : ∃ program,
      Source.parse .plain namingText = some program ∧
      ((runs program .empty (besideUnknown (program.nth 108)) depthBound).1.toOption.any
        secondIsAny) = true ∧
      ((runs program .empty (madeTwice (fun t => makeUnion ask [t]) (program.nth 100))
        depthBound).1.toOption.any lengthsDiffer) = true ∧
      ((runs program .empty (madeTwice (stripNullish ask) (program.nth 100))
        depthBound).1.toOption.any lengthsDiffer) = true ∧
      ((runs program .empty (madeTwice (withUndefined ask) (program.nth 100))
        depthBound).1.toOption.any lengthsDiffer) = true :=
    Route.exists_program (by decide +kernel)
  exact ⟨program, hparse, hidesAny_of_besideUnknown hhidden, changes_of_madeTwice hmade,
    changes_of_madeTwice hstripped, changes_of_madeTwice hadded⟩

end RouteScribe.Typing
