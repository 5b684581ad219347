import RouteScribe.Proofs.Route.Failures
import RouteScribe.Proofs.Schema.WellFormed
import RouteScribe.Proofs.Typing.Moments
import RouteScribe.Proofs.Typing.Norms

/-!
# The names that object schemas require

The schema of an object requires the name of each of its properties that may not be left out.  A name
is required twice if two of them have it, and in no other way (`Store.Explains`): whatever else puts
names together merges those that are the same.

The list of properties that explains a schema can be found in the store, even long after, because no
run forgets what is known.  `Yields` is made for this: what it says about a result holds as soon as
everything that is known after the run is known in a store `final`, and `final` may be the store that
the whole analysis leaves behind.
-/

namespace RouteScribe.Typing

open Infer
open Source (Node Cursor)

/-- The names of the properties that may not be left out. -/
def requiredNames (properties : List Property) : List String :=
  (properties.filter fun p => !p.optional).map (·.name)

namespace Store

variable (final : Store)

/-- The required names of a list of properties are different ones, or it is that of an object. -/
def Accounts (properties : List Property) : Prop :=
  (requiredNames properties).Nodup ∨ ∃ id, final.Knows id properties

/-- An object schema requires only properties that it has, and each of them once, or the names that the
properties of an object in the store require. -/
structure Requires (properties : List (String × Schema)) (required : List String) : Prop where
  present : ∀ name ∈ required, name ∈ properties.map (·.1)
  listed : required.Nodup ∨
    ∃ id properties, final.Knows id properties ∧ required = requiredNames properties

/-- If the schema is that of an object, the names that it requires can be explained. -/
def Explains : Schema → Prop
  | .object properties required _ => final.Requires properties required
  | _ => True

variable {final}

lemma Explains.orNull {s : Schema} (h : final.Explains s) : final.Explains s.orNull := by
  cases s with
  | object => exact h
  | _ => trivial

end Store

/-- A run that forgets nothing, and what holds of its result if `final` knows all that is known after
it. -/
def Yields (root : Node) (final : Store) {α : Type} (x : Infer α) (R : α → Prop) : Prop :=
  ∀ ⦃c s a s'⦄, Context.Within root c → s.Within root → x.exec c s = (.ok a, s') →
    s'.Within root ∧ s.Keeps s' ∧ (s'.Keeps final → R a)

section

variable {α β : Type} {root : Node} {final : Store} {x : Infer α}

/-- The rest of the run forgets nothing either, so it does not matter when the store is looked at. -/
lemma Yields.bind {f : α → Infer β} {R : α → Prop} {R' : β → Prop} (hx : Yields root final x R)
    (hf : ∀ a, Yields root final (f a) fun b => R a → R' b) : Yields root final (x >>= f) R' := by
  intro c s b s' hc hs hrun
  obtain ⟨a, s₁, hfirst, hrest⟩ := exec_bind_eq_ok.1 hrun
  obtain ⟨hs₁, hkeeps₁, ha⟩ := hx hc hs hfirst
  obtain ⟨hs', hkeeps', hb⟩ := hf a hc hs₁ hrest
  refine ⟨hs', fun id ps h => hkeeps' id ps (hkeeps₁ id ps h), fun hfinal => hb hfinal (ha ?_)⟩
  exact fun id ps h => hfinal id ps (hkeeps' id ps h)

lemma Yields.mono {R R' : α → Prop} (hx : Yields root final x R) (h : ∀ a, R a → R' a) :
    Yields root final x R' := fun _ _ a _ hc hs hrun =>
  have ⟨hs', hkeeps, ha⟩ := hx hc hs hrun
  ⟨hs', hkeeps, fun hfinal => h a (ha hfinal)⟩

/-- After a run of which only matters that it forgets nothing. -/
lemma Yields.after {f : α → Infer β} {R : β → Prop} (hx : Yields root final x fun _ => True)
    (hf : ∀ a, Yields root final (f a) R) : Yields root final (x >>= f) R :=
  hx.bind fun a => (hf a).mono fun _ hb _ => hb

lemma yields_pure {a : α} {R : α → Prop} (h : R a) : Yields root final (pure a) R := by
  intro c s b s' hc hs hrun
  cases hrun
  exact ⟨hs, .refl s, fun _ => h⟩

lemma yields_throw {e : Failure} {R : α → Prop} : Yields root final (throw e : Infer α) R := by
  intro c s a s' hc hs hrun
  cases hrun

lemma yields_read : Yields root final read fun _ => True := by
  intro c s a s' hc hs hrun
  cases hrun
  exact ⟨hs, .refl s, fun _ => trivial⟩

lemma yields_of_sound (hx : ∀ s, (⟨root, s, fun _ => True⟩ : Watch).Sound x) :
    Yields root final x fun _ => True := fun _ s _ _ hc hs hrun =>
  have hholds := (hx s).holds hc hs hrun
  ⟨hholds.within, hholds.keeps, fun _ => trivial⟩

lemma yields_mapM {f : α → Infer β} {l : List α} {R : α → β → Prop}
    (h : ∀ a ∈ l, Yields root final (f a) (R a)) :
    Yields root final (l.mapM f) (List.Forall₂ R l) := by
  induction l with
  | nil =>
    rw [List.mapM_nil]
    exact yields_pure .nil
  | cons a l ih =>
    have hrest := ih fun b hb => h b (List.mem_cons_of_mem _ hb)
    rw [List.mapM_cons]
    exact (h a List.mem_cons_self).bind fun b => hrest.bind fun bs =>
      yields_pure fun hbs hb => .cons hb hbs

lemma yields_foldlM {f : β → α → Infer β} {l : List α} {R : β → Prop}
    (h : ∀ b, ∀ a ∈ l, Yields root final (f b a) fun b' => R b → R b') (b : β) :
    Yields root final (l.foldlM f b) fun b' => R b → R b' := by
  induction l generalizing b with
  | nil =>
    rw [List.foldlM_nil]
    exact yields_pure id
  | cons a l ih =>
    have hrest (b' : β) := ih (fun b a ha => h b a (List.mem_cons_of_mem _ ha)) b'
    rw [List.foldlM_cons]
    exact (h b a List.mem_cons_self).bind fun b' =>
      (hrest b').mono fun b'' hlast hfirst hb => hlast (hfirst hb)

end

/-! ## Queries -/

section

variable {root : Node} {final : Store} {c : Cursor} (hroot : root.Legible)

include hroot

lemma yields_typeOf (hc : Source.Within root c) : Yields root final (typeOf c) fun _ => True :=
  yields_of_sound fun _ => sound_ask hroot ⟨trivial, trivial⟩ (.typeOf c) hc

lemma yields_denoted (hc : Source.Within root c) : Yields root final (denoted c) fun _ => True :=
  yields_of_sound fun _ => sound_ask hroot ⟨trivial, trivial⟩ (.denoted c) hc

lemma yields_display (t : Ty) : Yields root final (display t) fun _ => True :=
  yields_of_sound fun _ => sound_ask hroot ⟨trivial, trivial⟩ (.display t) trivial

/-- The properties that an object gives are known from then on. -/
lemma yields_properties (t : Ty) :
    Yields root final (ask _ (.properties t)) fun r => ∀ ps, r = some ps → final.Accounts ps := by
  intro c s r s' hc hs hrun
  have hsound : (⟨root, s, fun _ => True⟩ : Watch).Sound (ask _ (.properties t)) :=
    sound_ask hroot ⟨trivial, trivial⟩ _ trivial
  have hholds := hsound.holds hc hs hrun
  refine ⟨hholds.within, hholds.keeps, fun hfinal ps hps => ?_⟩
  have hanswer : (answer c.depth _ (.properties t)).exec c s = (.ok r, s') :=
    (exec_bind_ok exec_read).symm.trans hrun
  cases t with
  | object id =>
    by_cases hid : id < s.objects.size
    · obtain ⟨qs, rfl, hknown⟩ := knows_of_properties hroot hc hs hid hanswer
      cases hps
      exact .inr ⟨id, hfinal id ps hknown⟩
    · -- No object stands there, and none of its names is required.
      cases hd : c.depth with
      | zero =>
        rw [hd] at hanswer
        cases hanswer
      | succ d =>
        rw [hd, exec_properties_missing d (not_lt.1 hid)] at hanswer
        cases hanswer
        cases hps
        exact .inl List.nodup_nil
  | _ =>
    cases hd : c.depth
    all_goals rw [hd] at hanswer
    all_goals cases hanswer
    cases hps

/-! ## Schemas -/

/-- The properties that a view shows can be explained. -/
def ViewsAccounted (final : Store) : Schema.View Ty Nat → Prop
  | .object _ members => final.Accounts members
  | _ => True

lemma yields_view (t : Ty) : Yields root final (view t) (ViewsAccounted final) := by
  have helement : Yields root final (elementType? ask t) fun _ => True :=
    yields_of_sound fun _ => sound_elementType? (fun _ q hq => sound_ask hroot ⟨trivial, trivial⟩ q hq) t
  rw [view_eq]
  split
  · rename_i v hv
    rcases Ty.plainView?_cases hv with ⟨members, -, rfl⟩ | ⟨kind, rfl, -⟩ | ⟨rfl, -⟩
    all_goals exact yields_pure trivial
  · refine helement.after fun e => ?_
    split
    · exact yields_pure trivial
    · exact yields_pure trivial
    · refine (yields_properties hroot t).bind fun r => ?_
      split
      · exact yields_pure fun hr => hr _ rfl
      · exact yields_pure fun hr => hr _ rfl
      · exact (yields_display hroot t).after fun _ => yields_pure fun _ => trivial

omit hroot in
/-- The names that are required of described members are those of the properties. -/
lemma required_of_forall₂ {ms : List Property} {properties : List (String × Bool × Schema)}
    (h : List.Forall₂ (fun p m => m.1 = p.name ∧ m.2.1 = p.optional) ms properties) :
    (properties.filter fun m => !m.2.1).map (·.1) = requiredNames ms := by
  induction h with
  | nil => rfl
  | @cons p m ms properties hm _ ih =>
    rw [requiredNames, List.filter_cons, List.filter_cons, hm.2]
    split
    · rw [List.map_cons, List.map_cons, ih, hm.1]
      rfl
    · exact ih

omit hroot in
/-- The schema of an object accounts for the properties that are described. -/
lemma yields_describeMembers {describe : List Nat → Ty → Infer Schema}
    (hdescribe : ∀ expanding t,
      Yields root final (describe expanding t) fun s => s.Everywhere final.Explains)
    (inside : List Nat) (members : List Property) :
    Yields root final (describeMembers describe inside members) fun s =>
      final.Accounts members → s.Everywhere final.Explains := by
  have hmember : ∀ p ∈ members, Yields root final (do
      let s ← describe inside p.type
      return (p.name, p.optional, s)) fun m =>
        (m.1 = p.name ∧ m.2.1 = p.optional) ∧ m.2.2.Everywhere final.Explains := by
    intro p _
    exact (hdescribe inside p.type).bind fun s => yields_pure fun hs => ⟨⟨rfl, rfl⟩, hs⟩
  refine (yields_mapM hmember).bind fun properties => yields_pure ?_
  intro hall haccounts
  have hrequired := required_of_forall₂ (hall.imp fun _ _ h => h.1)
  refine Schema.everywhere_ofProperties (forall_mem_of_forall₂ (hall.imp fun _ _ h => h.2)) ?_
  refine ⟨fun _ hname => Schema.mem_names_of_required hname, ?_⟩
  rw [hrequired]
  exact haccounts.imp_right fun ⟨id, hknown⟩ => ⟨id, members, hknown, rfl⟩

/-- One level of description. -/
lemma yields_describeWith {describe : List Nat → Ty → Infer Schema}
    (hdescribe : ∀ expanding t,
      Yields root final (describe expanding t) fun s => s.Everywhere final.Explains)
    (expanding : List Nat) (t : Ty) :
    Yields root final (Schema.describeWith view Ty.isNullish describe expanding t) fun s =>
      s.Everywhere final.Explains := by
  have hleaf {description : Option String} {n : Bool} :
      (Schema.unparsed description n).Everywhere final.Explains :=
    Schema.everywhere_unparsed.2 trivial
  refine (yields_view hroot t).bind fun v => ?_
  cases v with
  | union members =>
    dsimp only
    split
    · exact yields_pure fun _ => hleaf
    · refine (hdescribe expanding _).bind fun s => yields_pure fun hs _ => ?_
      split
      · exact hs.orNull (hs s .here).orNull
      · exact hs
    · refine (yields_mapM fun m _ => hdescribe expanding m).bind fun schemas =>
        yields_pure fun hs _ => ?_
      exact Schema.everywhere_ofVariants (fun _ h => h.orNull) (forall_mem_of_forall₂ hs)
        fun _ => trivial
  | primitive kind => exact yields_pure fun _ => Schema.everywhere_primitive.2 trivial
  | undefined => exact yields_pure fun _ => hleaf
  | array element =>
    exact (hdescribe expanding element).bind fun s =>
      yields_pure fun hs _ => Schema.everywhere_array.2 ⟨trivial, hs⟩
  | map value =>
    exact (hdescribe expanding value).bind fun s =>
      yields_pure fun hs _ => Schema.everywhere_map.2 ⟨trivial, hs⟩
  | object identity members =>
    cases identity with
    | none => exact yields_describeMembers hdescribe expanding members
    | some id =>
      dsimp only
      split
      · exact yields_pure fun _ => hleaf
      · exact yields_describeMembers hdescribe (id :: expanding) members
  | other description => exact yields_pure fun _ => hleaf

/-- **What a schema requires can be explained by what is known** after it was worked out. -/
theorem yields_schemaOf (t : Ty) :
    Yields root final (schemaOf t) fun s => s.Everywhere final.Explains := by
  have hdescribe (level : Nat) (expanding : List Nat) (t : Ty) :
      Yields root final (Schema.synthesize view Ty.isNullish (throw .exhausted) level expanding t)
        fun s => s.Everywhere final.Explains := by
    induction level generalizing expanding t with
    | zero => exact yields_throw
    | succ level ih => exact yields_describeWith hroot ih expanding t
  exact yields_read.after fun x => hdescribe x.depth [] t

end

end RouteScribe.Typing
