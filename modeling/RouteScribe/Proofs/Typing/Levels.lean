import RouteScribe.Proofs.Typing.Termination

/-!
# One level of description less

The description of a type has as many levels as queries may be asked deep, and what is described inside
a union has one level less.  When the description of a type comes to an end, it does so with one level
less as well (`eventually_describeTo_pred`).  A run that is cut off at a level leaves no more objects
than one with a further level does (`cutShort_describeTo`), so the number of objects stays bounded, and
bounded runs come to an end.
-/

namespace RouteScribe.Typing

open Filter Infer
open Source (Node Cursor)

section

variable {α β : Type} {root : Node} {c : Context} {s : Store}

/-- The first of two runs ends like the second, or is cut off before and leaves no more objects. -/
structure CutShort (root : Node) (c : Context) (x y : Infer α) : Prop where
  within : ∀ s, s.Within root → (y.exec c s).2.Within root
  grows : ∀ s, s.Within root → s.objects.size ≤ (y.exec c s).2.objects.size
  same : ∀ s, s.Within root → x.exec c s = y.exec c s ∨
    (x.exec c s).1 = .error .exhausted ∧ (x.exec c s).2.objects.size ≤ (y.exec c s).2.objects.size

/-- A tame run beside itself. -/
lemma Tame.cutShort {w : Setting} {m n : Nat} {x : Infer α} (h : Tame w m c n (x.toDepth ·)) (d : Nat) :
    CutShort w.root (c.atDepth d) x x where
  within s hs := (h.spends d d s hs).within
  grows s hs := (h.spends d d s hs).grows.size
  same _ _ := .inl rfl

lemma cutShort_pure (a : α) : CutShort root c (pure a) (pure a) where
  within _ hs := hs
  grows _ _ := le_rfl
  same _ _ := .inl rfl

lemma CutShort.bind {x y : Infer α} {f g : α → Infer β} (hx : CutShort root c x y)
    (hf : ∀ a, CutShort root c (f a) (g a)) : CutShort root c (x >>= f) (y >>= g) where
  within s hs := by
    have hfirst := hx.within s hs
    rcases hy : y.exec c s with ⟨e | a, s'⟩
    · rw [exec_bind_error hy]
      rwa [hy] at hfirst
    · rw [exec_bind_ok hy]
      rw [hy] at hfirst
      exact (hf a).within s' hfirst
  grows s hs := by
    have hfirst := hx.grows s hs
    have hwithin := hx.within s hs
    rcases hy : y.exec c s with ⟨e | a, s'⟩
    · rw [exec_bind_error hy]
      rwa [hy] at hfirst
    · rw [exec_bind_ok hy]
      rw [hy] at hfirst hwithin
      exact hfirst.trans ((hf a).grows s' hwithin)
  same s hs := by
    have hwithin := hx.within s hs
    rcases hx.same s hs with heq | ⟨hcut, hsize⟩
    · rcases hy : y.exec c s with ⟨e | a, s'⟩
      · left
        rw [exec_bind_error hy, exec_bind_error (heq.trans hy)]
      · rw [exec_bind_ok hy, exec_bind_ok (heq.trans hy)]
        rw [hy] at hwithin
        exact (hf a).same s' hwithin
    · right
      rcases hout : x.exec c s with ⟨e | a, s'⟩
      · rw [hout] at hcut hsize
        rw [exec_bind_error hout]
        refine ⟨congrArg Except.error (Except.error.inj hcut), hsize.trans ?_⟩
        rcases hy : y.exec c s with ⟨e' | a, s''⟩
        · rw [exec_bind_error hy]
        · rw [exec_bind_ok hy]
          rw [hy] at hwithin
          exact (hf a).grows s'' hwithin
      · rw [hout] at hcut
        cases hcut

lemma cutShort_mapM {f g : α → Infer β} {l : List α} (h : ∀ a ∈ l, CutShort root c (f a) (g a)) :
    CutShort root c (l.mapM f) (l.mapM g) := by
  induction l with
  | nil =>
    simp only [List.mapM_nil]
    exact cutShort_pure []
  | cons a l ih =>
    simp only [List.mapM_cons]
    have hrest := ih fun b hb => h b (List.mem_cons_of_mem _ hb)
    exact (h a List.mem_cons_self).bind fun b => hrest.bind fun bs => cutShort_pure _

lemma cutShort_describeMembers {describe describe' : List Nat → Ty → Infer Schema} {inside : List Nat}
    (h : ∀ t, CutShort root c (describe inside t) (describe' inside t)) (members : List Property) :
    CutShort root c (describeMembers describe inside members)
      (describeMembers describe' inside members) := by
  refine (cutShort_mapM fun p _ => ?_).bind fun properties => cutShort_pure _
  exact (h p.type).bind fun s => cutShort_pure _

/-- One level of description, from the descriptions of the parts. -/
lemma cutShort_describeWith {describe describe' : List Nat → Ty → Infer Schema}
    (hview : ∀ t, CutShort root c (view t) (view t))
    (h : ∀ expanding t, CutShort root c (describe expanding t) (describe' expanding t))
    (expanding : List Nat) (t : Ty) :
    CutShort root c (Schema.describeWith view Ty.isNullish describe expanding t)
      (Schema.describeWith view Ty.isNullish describe' expanding t) := by
  unfold Schema.describeWith
  refine (hview t).bind fun v => ?_
  cases v with
  | union members =>
    dsimp only
    split
    · exact cutShort_pure _
    · exact (h expanding _).bind fun s => cutShort_pure _
    · exact (cutShort_mapM fun m _ => h expanding m).bind fun schemas => cutShort_pure _
  | primitive kind => exact cutShort_pure _
  | undefined => exact cutShort_pure _
  | array part => exact (h expanding part).bind fun s => cutShort_pure _
  | map part => exact (h expanding part).bind fun s => cutShort_pure _
  | object identity members =>
    cases identity with
    | none => exact cutShort_describeMembers (h expanding) members
    | some id =>
      dsimp only
      split
      · exact cutShort_pure _
      · exact cutShort_describeMembers (h (id :: expanding)) members
  | other description => exact cutShort_pure _

/-- A level of description less can only cut the description short. -/
lemma cutShort_describeTo (hc : ∀ a ∈ c.aliases, Source.Within root a.2) (d level : Nat)
    (expanding : List Nat) (t : Ty) : CutShort root (c.atDepth d) (describeTo level expanding t)
      (describeTo (level + 1) expanding t) := by
  let w : Setting := ⟨root, 0, False⟩
  have hw : w.Reads c := hc
  induction level generalizing expanding t with
  | zero =>
    obtain ⟨hwithin, hgrows, -⟩ :=
      (tame_describeTo_const (m := 0) (id : ¬w.ending) hw 1 expanding t).cutShort d
    exact ⟨hwithin, hgrows, fun s hs => .inr ⟨rfl, hgrows s hs⟩⟩
  | succ level ih =>
    exact cutShort_describeWith (fun u => (tame_view (m := 0) hw u).cutShort d) ih expanding t

/-- **A level of description less does not matter in the end.** -/
theorem eventually_describeTo_pred (hc : ∀ a ∈ c.aliases, Source.Within root a.2)
    (hs : s.Within root) {t : Ty} {out : Outcome Schema}
    (h : ∀ᶠ d in atTop, (describeTo d [] t).exec (c.atDepth d) s = out) :
    ∀ᶠ d in atTop, (describeTo (d - 1) [] t).exec (c.atDepth d) s = out := by
  have hcut : ∀ᶠ d in atTop, (describeTo (d - 1) [] t).exec (c.atDepth d) s = out ∨
      ((describeTo (d - 1) [] t).exec (c.atDepth d) s).1 = .error .exhausted ∧
        ((describeTo (d - 1) [] t).exec (c.atDepth d) s).2.objects.size ≤ out.2.objects.size := by
    filter_upwards [h, eventually_ge_atTop 1] with d hd hpos
    have hlevel := (cutShort_describeTo hc d (d - 1) [] t).same s hs
    rwa [Nat.sub_add_cancel hpos, hd] at hlevel
  let w : Setting := ⟨root, out.2.objects.size, True⟩
  have hbounded : Bounded w.bound (fun d => (describeTo (d - 1) [] t).toDepth d) c s := by
    filter_upwards [hcut] with d hd
    exact ⟨d, hd.elim (fun heq => (congrArg (·.2.objects.size) heq).le) And.right⟩
  have htame := tame_describeTo (w := w) (m := w.remaining c s + 1) hc 1 [] t
  obtain ⟨out', hne', hgives⟩ := htame.ends trivial s hs (Nat.lt_succ_self _) hbounded
  filter_upwards [hcut, hgives] with d hcut hgives
  have hout : (describeTo (d - 1) [] t).exec (c.atDepth d) s = out' := hgives d
  refine hcut.resolve_right fun hexhausted => hne' ?_
  rw [← hout, hexhausted.1]

end

end RouteScribe.Typing
