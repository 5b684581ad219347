import RouteScribe.Proofs.Typing.Sound
import RouteScribe.Proofs.Typing.TameDenotation

/-!
# Moments of inference

The properties of an object are worked out when they are first asked for, in the middle of whatever
goes on, and until they are found the object has none.  `Working root opened s` says that the store
`s` occurs while the file is analyzed, at a time when the properties of the objects `opened` are being
worked out; `Later root opened s s'` says that `s'` can come after `s`.

Lists of properties that are known stay as they are, except those of the objects that are being worked
out (`Later.knows`).  So an object that is asked for its properties at a time when they are not being
worked out contributes the list that it has ever after (`contributes_of_propertiesOf`).
-/

namespace RouteScribe.Typing

open Infer
open Source (Node Cursor)

namespace Store

/-- The store after the properties of an object were found. -/
def finished (s : Store) (id : Nat) (properties : List Property) : Store :=
  s.change id fun o => { o with shape := .known properties }

/-- A type has these properties: an object those that are known, any other type none. -/
def Lists (s : Store) (properties : List Property) : Ty → Prop
  | .object id => s.Knows id properties
  | _ => properties = []

/-- A type that is no object whose properties are being worked out: an object of the store that is
not among them, or no object at all. -/
def Settles (s : Store) (opened : List Nat) : Ty → Prop
  | .object id => id < s.objects.size ∧ id ∉ opened
  | _ => True

section

variable {s : Store} {id i : Nat} {properties properties' : List Property}

lemma knows_finished (h : id < s.objects.size) :
    (s.finished id properties).Knows id properties := by
  rw [Knows, finished, shape?_change, if_pos rfl, Array.getElem?_eq_getElem h, Option.map_some]

lemma Knows.finished (h : s.Knows i properties') (hne : i ≠ id) :
    (s.finished id properties).Knows i properties' := by
  rw [Knows, Store.finished, shape?_change, if_neg hne.symm]
  exact h

lemma begun_knows (h : id < s.objects.size) : (s.begun id).Knows id [] :=
  knows_finished h

lemma Knows.push {name : Option String} {shape : Shape} (h : s.Knows i properties) :
    ({ s with objects := s.objects.push ⟨name, shape⟩ } : Store).Knows i properties := by
  rw [Knows, shape?_push, if_neg h.lt_size.ne]
  exact h

lemma knows_push {name : Option String} :
    ({ s with objects := s.objects.push ⟨name, .known properties⟩ } : Store).Knows s.objects.size
      properties := by
  rw [Knows, shape?_push, if_pos rfl]

lemma Lists.push {name : Option String} {shape : Shape} {t : Ty} (h : s.Lists properties t) :
    ({ s with objects := s.objects.push ⟨name, shape⟩ } : Store).Lists properties t := by
  cases t with
  | object id => exact Knows.push h
  | _ => exact h

end

end Store

/-! ## What comes later -/

/-- The stores that can come after a store while the properties of some objects are being worked out:
queries are answered, objects are created, aliases are resolved, and the properties of one of these
objects are found. -/
inductive Later (root : Node) (opened : List Nat) (s : Store) : Store → Prop
  | refl : Later root opened s s
  | query {α : Type} {q : Query α} {d : Nat} {c : Context} {a : α} {s' s'' : Store} :
    Later root opened s s' → q.Within root → c.Within root →
    (answer d α q).exec c s' = (.ok a, s'') → Later root opened s s''
  | create {name : Option String} {shape : Shape} {s' : Store} :
    Later root opened s s' → shape.Within root →
    Later root opened s { s' with objects := s'.objects.push ⟨name, shape⟩ }
  | settle (name : String) (t : Ty) (c : Context) {s' : Store} : Later root opened s s' →
    Later root opened s ((settleAlias name t).exec c s').2
  | finish {id : Nat} (properties : List Property) {s' : Store} : Later root opened s s' →
    id ∈ opened → Later root opened s (s'.finished id properties)

/-- The stores that occur while a file is analyzed, with the objects whose properties are being worked
out at the time. -/
inductive Working (root : Node) : List Nat → Store → Prop
  | start : Working root [] .empty
  | later {opened : List Nat} {s s' : Store} :
    Working root opened s → Later root [] s s' → Working root opened s'
  | begin {opened : List Nat} {s : Store} {id : Nat} {shape : Shape} : Working root opened s →
    s.shape? id = some shape → shape.isKnown = false → Working root (id :: opened) (s.begun id)
  | finish {opened : List Nat} {s : Store} {id : Nat} (properties : List Property) :
    Working root (id :: opened) s → Working root opened (s.finished id properties)

section

variable {root : Node} {opened : List Nat} {c : Context} {s s' s'' : Store}

lemma Later.trans (h : Later root opened s s') (h' : Later root opened s' s'') :
    Later root opened s s'' := by
  induction h' with
  | refl => exact h
  | query _ hq hc hrun ih => exact ih.query hq hc hrun
  | create _ hshape ih => exact ih.create hshape
  | settle name t c _ ih => exact ih.settle name t c
  | finish properties _ hid ih => exact ih.finish properties hid

/-- A run that is sound stays in the file and forgets nothing. -/
lemma Watch.Sound.holds {α : Type} {x : Infer α} {a : α}
    (hx : (⟨root, s, fun _ => True⟩ : Watch).Sound x) (hc : c.Within root) (hs : s.Within root)
    (h : x.exec c s = (.ok a, s')) : (⟨root, s, fun _ => True⟩ : Watch).Holds s' :=
  ((triple_iff.1 hx c s ⟨hc, hs, le_rfl, .refl s⟩).1 a s' h).2

lemma holds_settleAlias (hs : s.Within root) (name : String) (t : Ty) :
    (⟨root, s, fun _ => True⟩ : Watch).Holds ((settleAlias name t).exec c s).2 := by
  have hself : (⟨root, s, fun _ => True⟩ : Watch).Holds s := ⟨hs, le_rfl, .refl s⟩
  cases t with
  | object id =>
    have hnamed : (⟨root, s, fun _ => True⟩ : Watch).Holds
        (s.change id fun o => { o with name := o.name <|> some name }) :=
      hself.change fun o => .inl rfl
    exact Watch.holds_mk.2 hnamed
  | _ => exact Watch.holds_mk.2 hself

/-- What comes later holds all objects that were there, and what was known of those that were not
being worked out. -/
lemma Later.invariant (hroot : root.Legible) (h : Later root opened s s') (hs : s.Within root) :
    s'.Within root ∧ s.objects.size ≤ s'.objects.size ∧
      ∀ id ∉ opened, ∀ properties, s.Knows id properties → s'.Knows id properties := by
  -- All steps but the last forget nothing at all.
  have hstep {s' s'' : Store} (h : (⟨root, s', fun _ => True⟩ : Watch).Holds s'')
      (ih : s'.Within root ∧ s.objects.size ≤ s'.objects.size ∧
        ∀ id ∉ opened, ∀ properties, s.Knows id properties → s'.Knows id properties) :
      s''.Within root ∧ s.objects.size ≤ s''.objects.size ∧
        ∀ id ∉ opened, ∀ properties, s.Knows id properties → s''.Knows id properties :=
    ⟨h.within, ih.2.1.trans h.grows, fun id hid properties hknown =>
      h.keeps id properties (ih.2.2 id hid properties hknown)⟩
  induction h with
  | refl => exact ⟨hs, le_rfl, fun _ _ _ h => h⟩
  | query _ hq hc hrun ih => exact hstep ((sound_answer hroot ⟨trivial, trivial⟩ _ _ hq).holds hc ih.1 hrun) ih
  | create _ hshape ih =>
    exact hstep (Watch.Holds.push ⟨ih.1, le_rfl, .refl _⟩ _ hshape) ih
  | settle name t c _ ih => exact hstep (holds_settleAlias ih.1 name t) ih
  | finish properties _ hid ih =>
    obtain ⟨hwithin, hsize, hknows⟩ := ih
    refine ⟨Store.within_change (fun o => .inr rfl) hwithin, hsize.trans (Store.size_change _ _).ge,
      fun i hi properties' hknown => ?_⟩
    exact (hknows i hi properties' hknown).finished fun heq => hi (heq ▸ hid)

lemma Later.within (hroot : root.Legible) (h : Later root opened s s') (hs : s.Within root) :
    s'.Within root :=
  (h.invariant hroot hs).1

/-- A list that is known stays as it is. -/
lemma Later.knows (hroot : root.Legible) (h : Later root opened s s') (hs : s.Within root) {id : Nat}
    {properties : List Property} (hid : id ∉ opened) (hknown : s.Knows id properties) :
    s'.Knows id properties :=
  (h.invariant hroot hs).2.2 id hid properties hknown

/-- At every moment, the store is one of the file, and the objects that are being worked out are
different ones without properties. -/
lemma Working.invariant (hroot : root.Legible) (h : Working root opened s) :
    s.Within root ∧ opened.Nodup ∧ ∀ id ∈ opened, s.Knows id [] := by
  induction h with
  | start => exact ⟨fun o ho => absurd ho (by simp [Store.empty]), .nil, by simp⟩
  | later _ hlater ih =>
    obtain ⟨hwithin, -, hknows⟩ := hlater.invariant hroot ih.1
    exact ⟨hwithin, ih.2.1, fun id hid => hknows id List.not_mem_nil [] (ih.2.2 id hid)⟩
  | @begin opened s id shape _ hshape hunknown ih =>
    obtain ⟨hwithin, hnodup, hempty⟩ := ih
    have hnew : id ∉ opened := by
      intro hid
      have hknown : some shape = some (.known []) := hshape.symm.trans (hempty id hid)
      cases hknown
      cases hunknown
    obtain ⟨o, ho, -⟩ := Option.map_eq_some_iff.1 hshape
    have hlt : id < s.objects.size := (Array.getElem?_eq_some_iff.1 ho).1
    refine ⟨Store.within_change (fun o => .inr rfl) hwithin, hnodup.cons hnew, fun i hi => ?_⟩
    rcases List.mem_cons.1 hi with rfl | hi
    · exact Store.begun_knows hlt
    · exact (hempty i hi).finished fun heq => hnew (heq ▸ hi)
  | finish properties _ ih =>
    obtain ⟨hwithin, hnodup, hempty⟩ := ih
    refine ⟨Store.within_change (fun o => .inr rfl) hwithin, hnodup.of_cons, fun i hi => ?_⟩
    refine (hempty i (List.mem_cons_of_mem _ hi)).finished fun heq => ?_
    exact (List.nodup_cons.1 hnodup).1 (heq ▸ hi)

end

/-! ## Asking for properties -/

/-- What a type `t` contributes that is asked for its properties in the store `s`: those that it has
in the store `s'`, or none while they are being worked out. -/
structure Contributes (opened : List Nat) (s s' : Store) (properties : List Property) (t : Ty) : Prop where
  settled : s.Settles opened t → s'.Lists properties t
  opened : ∀ id ∈ opened, t = .object id → properties = []

section

variable {root : Node} {opened : List Nat} {c : Context} {s s' s'' : Store} {ask : Answers} {id : Nat}
  {t : Ty} {properties : List Property}

lemma Contributes.keeps (h : Contributes opened s s' properties t) (hkeeps : s'.Keeps s'') :
    Contributes opened s s'' properties t where
  settled ht := by
    have hlists := h.settled ht
    cases t with
    | object id => exact hkeeps id properties hlists
    | _ => exact hlists
  opened := h.opened

/-- The properties of an object that is being worked out are found: no other type is touched. -/
lemma Contributes.finished {properties' : List Property} (h : Contributes opened s s' properties t)
    (hid : id ∈ opened) : Contributes opened s (s'.finished id properties') properties t where
  settled ht := by
    have hlists := h.settled ht
    cases t with
    | object i => exact Store.Knows.finished hlists fun heq => ht.2 (heq ▸ hid)
    | _ => exact hlists
  opened := h.opened

lemma Contributes.later (hroot : root.Legible) {opened' : List Nat} (h : Contributes opened s s' properties t)
    (hopened : opened' ⊆ opened) (hs : s'.Within root) (hlater : Later root opened' s' s'') :
    Contributes opened s s'' properties t where
  settled ht := by
    have hlists := h.settled ht
    cases t with
    | object id => exact hlater.knows hroot hs (fun hid => ht.2 (hopened hid)) hlists
    | _ => exact hlists
  opened := h.opened

lemma exec_objectProperties_known (h : s.Knows id properties) :
    (objectProperties ask (.object id)).exec c s = (.ok (some properties), s) := by
  obtain ⟨o, ho, hshape⟩ := Option.map_eq_some_iff.1 h
  have hinfo : (objectProperties ask (.object id)).exec c s = _ := exec_bind_ok (exec_objectInfo id)
  rw [hinfo, ho, Option.getD_some, hshape, exec_pure]

lemma exec_objectProperties_unknown {shape : Shape} (h : s.shape? id = some shape)
    (hunknown : shape.isKnown = false) :
    (objectProperties ask (.object id)).exec c s =
      (finishProperties ask id shape).exec c (s.begun id) := by
  obtain ⟨o, ho, rfl⟩ := Option.map_eq_some_iff.1 h
  have hinfo : (objectProperties ask (.object id)).exec c s = _ := exec_bind_ok (exec_objectInfo id)
  rw [hinfo, ho, Option.getD_some]
  cases hshape : o.shape with
  | known properties => rw [hshape] at hunknown; cases hunknown
  | _ => rfl

/-- The properties of an object that are worked out are the last thing that is changed. -/
lemma exists_of_finishProperties {shape : Shape} {r : Option (List Property)}
    (h : (finishProperties ask id shape).exec c s = (.ok r, s')) :
    ∃ properties s₁, (shapeProperties ask shape).exec c s = (.ok properties, s₁) ∧
      r = some properties ∧ s' = s₁.finished id properties := by
  obtain ⟨properties, s₁, hproperties, h⟩ := exec_bind_eq_ok.1 h
  obtain ⟨_, s₂, hmodify, hpure⟩ := exec_bind_eq_ok.1 h
  cases hmodify
  cases hpure
  exact ⟨properties, s₁, hproperties, rfl, rfl⟩

/-- An object that gives its properties keeps them, and they are known from then on. -/
lemma knows_of_properties (hroot : root.Legible) {d : Nat} {r : Option (List Property)}
    (hc : c.Within root) (hs : s.Within root) (hid : id < s.objects.size)
    (h : (answer d _ (.properties (.object id))).exec c s = (.ok r, s')) :
    ∃ properties, r = some properties ∧ s'.Knows id properties := by
  cases d with
  | zero => cases h
  | succ d =>
    obtain ⟨o, ho⟩ : ∃ o, s.objects[id]? = some o := ⟨_, Array.getElem?_eq_getElem hid⟩
    have hshape : s.shape? id = some o.shape := by rw [Store.shape?, ho, Option.map_some]
    have hwithin : o.shape.Within root := hs o (Array.mem_toList_iff.2 (Array.mem_of_getElem? ho))
    change (objectProperties (answer d) (.object id)).exec c s = (.ok r, s') at h
    by_cases hknown : o.shape.isKnown = true
    · cases heq : o.shape with
      | known properties =>
        rw [heq] at hshape
        rw [exec_objectProperties_known hshape] at h
        cases h
        exact ⟨properties, rfl, hshape⟩
      | _ => rw [heq] at hknown; cases hknown
    · rw [exec_objectProperties_unknown hshape (Bool.eq_false_iff.2 hknown)] at h
      obtain ⟨properties, s₁, hrun, rfl, rfl⟩ := exists_of_finishProperties h
      have hbegun : (s.begun id).Within root := Store.within_change (fun o => .inr rfl) hs
      have hsound := sound_shapeProperties (w := ⟨root, s.begun id, fun _ => True⟩)
        (fun _ q hq => sound_answer hroot ⟨trivial, trivial⟩ d q hq) hwithin
      have hholds := hsound.holds hc hbegun hrun
      exact ⟨properties, rfl,
        Store.knows_finished (hholds.keeps id [] (Store.begun_knows hid)).lt_size⟩

/-- **What a type contributes that is asked for its properties**: the list that it has ever after,
or nothing while that list is being worked out. -/
theorem contributes_of_propertiesOf (hroot : root.Legible) {d : Nat} {t : Ty} {properties : List Property}
    (hc : c.Within root) (hs : Working root opened s)
    (h : (propertiesOf (answer d) t).exec c s = (.ok properties, s')) :
    Later root [] s s' ∧ Contributes opened s s' properties t := by
  obtain ⟨hwithin, -, hempty⟩ := hs.invariant hroot
  obtain ⟨r, s₁, hrun, hpure⟩ := exec_bind_eq_ok.1 h
  cases hpure
  refine ⟨.query (q := .properties t) .refl trivial hc hrun, fun ht => ?_, ?_⟩
  · cases t with
    | object id =>
      obtain ⟨properties, rfl, hknown⟩ := knows_of_properties hroot hc hwithin ht.1 hrun
      exact hknown
    | _ =>
      cases d with
      | zero => cases hrun
      | succ d => cases hrun; rfl
  · rintro id hid rfl
    cases d with
    | zero => cases hrun
    | succ d =>
      cases (exec_objectProperties_known (hempty id hid)).symm.trans hrun
      rfl

end

end RouteScribe.Typing
