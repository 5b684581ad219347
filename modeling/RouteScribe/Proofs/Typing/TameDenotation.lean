import RouteScribe.Proofs.Typing.Budget
import RouteScribe.Proofs.Typing.Unions

/-!
# Type expressions denote tamely

The functions that say what type expressions denote, one by one: given that the queries they ask are
tame (`Asks`), so are they, and what they cost is what the query that they answer may cost.

Three of the guards are met here.  Displaying an object leaves one object less to display
(`tame_displayText`), working out properties leaves one unknown shape less, which pays for what comes
out of it (`tame_objectProperties`), and resolving an alias leaves one alias less, which pays in the
same way (`tame_aliasType`).
-/

namespace RouteScribe.Typing

open Infer
open Source (Node Cursor)

/-- What the type of an expression may cost when `k` expressions of a file are not being worked out:
each asks for the types of parts, of which there are at most as many as nodes, and for what type
expressions denote. -/
def typeCost (size : Nat) : Nat → Nat
  | 0 => 0
  | k + 1 => 1 + (size + 2) * (typeCost size k + 2 * size)

/-- Queries are tame in a context.  What type expressions denote may be asked for nodes below a size
only. -/
structure Asks (w : Setting) (m k : Nat) (c : Context) (asks : Nat → Answers) : Prop where
  properties : ∀ t, Tame w m c 0 fun d => asks d _ (.properties t)
  display : ∀ t, Tame w m c 0 fun d => asks d _ (.display t)
  typeOf : ∀ e, Source.Within w.root e →
    Tame w m c (typeCost w.root.size (w.pending c)) fun d => asks d _ (.typeOf e)
  denoted : ∀ e, Source.Within w.root e → e.size < k →
    Tame w m c (2 * e.size) fun d => asks d _ (.denoted e)

section

variable {w : Setting} {m k n : Nat} {c : Context} {asks : Nat → Answers}

/-! ## Unions and display -/

lemma tame_propertiesOf {t : Ty} (hp : Tame w m c 0 fun d => asks d _ (.properties t)) :
    Tame w m c 0 fun d => propertiesOf (asks d) t :=
  hp.bind_last fun _ => tame_pure _

section

variable (h : ∀ t, Tame w m c 0 fun d => asks d _ (.display t))

include h

lemma tame_unionKey (t : Ty) :
    Tame w m c 0 fun d => unionKey (asks d) t := by
  cases t
  case object id => exact tame_pure _
  all_goals exact (h _).bind_last fun _ => tame_pure _

lemma tame_makeUnion (ts : List Ty) :
    Tame w m c 0 fun d => makeUnion (asks d) ts :=
  (tame_mapM_free fun t _ => (tame_unionKey h t).bind_last fun _ => tame_pure _).bind_last
    fun _ => tame_pure _

lemma tame_widen (t : Ty) :
    Tame w m c 0 fun d => widen (asks d) t := by
  cases t
  case union members => exact tame_makeUnion h _
  all_goals exact tame_pure _

lemma tame_filterUnion (test : Ty → Bool) (t : Ty) : Tame w m c 0 fun d => filterUnion (asks d) test t := by
  cases t
  case union members => exact tame_makeUnion h _
  all_goals exact tame_pure _

lemma tame_presentType (p : Property) :
    Tame w m c 0 fun d => presentType (asks d) p := by
  unfold presentType
  split
  · exact tame_filterUnion h _ _
  · exact tame_pure _

lemma tame_elementType (t : Ty) :
    Tame w m c 0 fun d => elementType? (asks d) t := by
  match t with
  | .tuple [] => exact tame_pure _
  | .tuple (first :: rest) => exact (tame_makeUnion h _).bind_last fun _ => tame_pure _
  | .primitive _ | .literal _ | .enumMember _ _ _ | .union _ | .array _ | .map _ | .object _
  | .promise _ | .named _ _ | .function _ => exact tame_pure _

lemma tame_displayProperties (ps : List Property) : Tame w m c 0 fun d => displayProperties (asks d) ps := by
  refine (tame_mapM_free fun p _ => ?_).bind_last fun _ => tame_pure _
  exact (tame_presentType h p).bind_free fun t => (h t).bind_last fun _ => tame_pure _

end

/-- An object that is not there has no properties. -/
def NoneMissing (asks : Nat → Answers) : Prop :=
  ∀ d c s id, s.objects.size ≤ id →
    (asks d _ (.properties (.object id))).exec c s = (.ok (some []), s) ∨
      (asks d _ (.properties (.object id))).exec c s = (.error .exhausted, s)

/-- The display of the properties of an object that is not there comes to an end. -/
lemma halts_displayMissing {s : Store} {id : Nat} (hmissing : NoneMissing asks)
    (hid : s.objects.size ≤ id) (h : Halts (fun d => asks d _ (.properties (.object id))) c s) :
    Halts (fun d => do displayProperties (asks d) (← propertiesOf (asks d) (.object id))) c s := by
  obtain ⟨out, hne, hgives⟩ := h
  have hout : out = (.ok (some []), s) := by
    obtain ⟨d, hd⟩ := hgives.exists
    rcases hmissing d (c.atDepth 0) s id hid with hok | hexhausted
    · rw [← hd 0, hok]
    · rw [← hd 0, hexhausted] at hne
      exact absurd rfl hne
  rw [hout] at hgives
  have hempty : Gives (fun d => displayProperties (asks d) []) c s (.ok "\x7b\x7d", s) :=
    .of_exec fun _ _ => rfl
  have hnone : Gives (fun d => propertiesOf (asks d) (.object id)) c s (.ok [], s) :=
    hgives.bind (gives_pure _)
  exact ⟨(.ok "\x7b\x7d", s), by simp, hnone.bind hempty⟩

lemma Setting.remaining_inDisplay {s : Store} {id : Nat} (hid : id < w.bound)
    (hshown : id ∉ c.displaying) : w.remaining (c.inDisplay id) s < w.remaining c s := by
  have hcard := card_sdiff_cons_lt (Finset.mem_range.2 hid) hshown
  unfold Setting.remaining Setting.pending
  simp only [Context.inDisplay]
  omega

lemma Setting.remaining_inDisplay_le (s : Store) (id : Nat) :
    w.remaining (c.inDisplay id) s ≤ w.remaining c s := by
  have hcard : (Finset.range w.bound \ (id :: c.displaying).toFinset).card ≤
      (Finset.range w.bound \ c.displaying.toFinset).card :=
    Finset.card_le_card (Finset.sdiff_subset_sdiff le_rfl fun i hi => by
      simp only [List.mem_toFinset] at hi ⊢
      exact List.mem_cons_of_mem _ hi)
  unfold Setting.remaining Setting.pending
  simp only [Context.inDisplay]
  omega

/-- An object is displayed by its name, or by its properties in a context where it counts as
displayed. -/
lemma tame_displayObject (hmissing : NoneMissing asks) (id : Nat)
    (hproperties : Tame w (m + 1) (c.inDisplay id) 0 fun d => asks d _ (.properties (.object id)))
    (hin : Asks w m k (c.inDisplay id) asks) :
    Tame w (m + 1) c 0 fun d => displayText (asks d) (.object id) := by
  have hbody : Tame w m (c.inDisplay id) 0 (fun d => do
      displayProperties (asks d) (← propertiesOf (asks d) (.object id))) :=
    (tame_propertiesOf (hin.properties _)).bind_free fun ps => tame_displayProperties hin.display ps
  refine (tame_objectInfo id).bind_free fun o => ?_
  rcases o.name with - | name
  · refine Tame.bind_read ?_ fun d e => rfl
    by_cases hshown : id ∈ c.displaying
    · simp only [List.contains_iff_mem, hshown, if_true]
      exact tame_pure _
    · simp only [List.contains_iff_mem, hshown, if_false]
      refine hbody.changed (fun e => rfl) (fun s => rfl) fun hE s hs hm hb => ?_
      have hsize := hbody.size_le hs hb
      by_cases hid : id < s.objects.size
      · left
        have hless := w.remaining_inDisplay (s := s) (hid.trans_le hsize) hshown
        omega
      · right
        refine halts_displayMissing hmissing (not_lt.1 hid) (hproperties.ends hE s hs ?_ ?_)
        · exact (w.remaining_inDisplay_le s id).trans_lt hm
        · refine .of_forall fun d => ⟨0, ?_⟩
          rcases hmissing d ((c.inDisplay id).atDepth 0) s id (not_lt.1 hid) with h | h
          · rw [h]
            exact hsize
          · rw [h]
            exact hsize
  · exact tame_pure name

lemma tame_numberText (n : Numeral) : Tame w m c 0 fun _ => numberText n := by
  refine Tame.bind_read (f := fun _ x =>
    if x.limited && n.isLong then throw .longNumber else return n.text) ?_ fun _ _ => rfl
  split
  · exact tame_throw (by simp)
  · exact tame_pure _

/-- Every other type is displayed by its parts. -/
lemma tame_displayText (hmissing : NoneMissing asks)
    (hproperties : ∀ c t, w.Reads c → Tame w (m + 1) c 0 fun d => asks d _ (.properties t))
    (hin : ∀ c, w.Reads c → Asks w m k c asks) (hc : w.Reads c) (t : Ty)
    (h : ∀ u : Ty, u.weight < t.weight → Tame w (m + 1) c 0 fun d => asks d _ (.display u)) :
    Tame w (m + 1) c 0 fun d => displayText (asks d) t := by
  match t with
  | .primitive _ | .literal (.string _) | .literal (.boolean _) | .enumMember _ _ _ | .function _
  | .named _ [] => exact tame_pure _
  | .literal (.number n) => exact tame_numberText n
  | .object id => exact tame_displayObject hmissing id (hproperties _ _ hc) (hin _ hc)
  | .union members =>
    refine (tame_mapM_free fun u hu => h u ?_).bind_last fun _ => tame_pure _
    have hle := Ty.weight_le_weights hu
    simp only [Ty.weight]
    omega
  | .tuple elements =>
    refine (tame_mapM_free fun u hu => h u ?_).bind_last fun _ => tame_pure _
    have hle := Ty.weight_le_weights hu
    simp only [Ty.weight]
    omega
  | .named _ (first :: rest) =>
    refine (tame_mapM_free fun u hu => h u ?_).bind_last fun _ => tame_pure _
    have hle := Ty.weight_le_weights hu
    simp only [Ty.weight]
    omega
  | .array element =>
    refine (h element ?_).bind_last fun _ => tame_pure _
    simp only [Ty.weight]
    omega
  | .map value =>
    refine (h value ?_).bind_last fun _ => tame_pure _
    simp only [Ty.weight]
    omega
  | .promise inner =>
    refine (h inner ?_).bind_last fun _ => tame_pure _
    simp only [Ty.weight]
    omega

/-! ## Members of object types -/

section

variable (h : Asks w m k c asks) {e : Cursor}

include h

lemma tame_denotedBy {e? : Option Cursor}
    (he : ∀ e, e? = some e → Source.Within w.root e ∧ e.size < k ∧ 2 * e.size ≤ n) :
    Tame w m c n fun d => denotedBy (asks d) e? := by
  rcases e? with - | e
  · exact tame_pure _
  · obtain ⟨hwithin, hk, hn⟩ := he e rfl
    exact (h.denoted e hwithin hk).mono hn

lemma tame_denotedAll {es : List Cursor} (hes : ∀ e ∈ es, Source.Within w.root e ∧ e.size < k) :
    Tame w m c (2 * (es.map Cursor.size).sum) fun d => denotedAll (asks d) es := by
  have hall := tame_mapM fun e he => h.denoted e (hes e he).1 (hes e he).2
  refine hall.mono (le_of_eq ?_)
  rw [List.sum_map_mul_left]

/-- The parts of a node. -/
lemma tame_denotedNamed (he : Source.Within w.root e) (hk : e.size ≤ k) :
    Tame w m c (2 * (e.size - 1)) fun d => denotedAll (asks d) e.named := by
  have hsum := e.sum_size_named_lt
  refine (tame_denotedAll h fun e' he' => ⟨he.named he', ?_⟩).mono (by omega)
  exact (Cursor.size_lt_of_mem_named he').trans_le hk

lemma tame_typeArguments (he : Source.Within w.root e) (hk : e.size ≤ k) :
    Tame w m c (2 * (e.size - 1)) fun d => typeArguments (asks d) e := by
  unfold typeArguments
  split
  · rename_i args hargs
    have hsize := Cursor.size_lt_of_child? hargs
    exact (tame_denotedNamed h (he.child hargs) (by omega)).mono (by omega)
  · exact tame_pure _

lemma tame_withUndefined (t : Ty) : Tame w m c 0 fun d => withUndefined (asks d) t :=
  tame_makeUnion h.display _

lemma tame_declaredProperties (he : Source.Within w.root e) (hk : e.size ≤ k) :
    Tame w m c (2 * (e.size - 1)) fun d => declaredProperties (asks d) e := by
  refine Tame.bind_last (Tame.mono (tame_mapM (k := fun p => 2 * p.size) fun p hp => ?_) ?_)
    fun _ => tame_pure _
  · have hnamed : p ∈ e.named := (List.mem_filter.1 hp).1
    have hlt := Cursor.size_lt_of_mem_named hnamed
    split
    · exact tame_pure _
    · have hlast (name : String) (t : Ty) : Tame w m c 0 fun d =>
          if p.node.hasToken "?" = true then do
            let t ← withUndefined (asks d) t
            return [({ name, optional := p.node.hasToken "?", type := t } : Property)]
          else return [{ name, optional := p.node.hasToken "?", type := t }] := by
        split
        · exact (tame_withUndefined h t).bind_last fun _ => tame_pure _
        · exact tame_pure _
      dsimp only
      split
      · exact (hlast _ _).mono (by omega)
      · refine Tame.bind_last (tame_denotedBy h fun e' he' => ?_) fun t => hlast _ t
        have hsize := Cursor.size_lt_of_child? he'
        exact ⟨(he.named hnamed).child he', by omega, by omega⟩
  · have hsum := e.sum_size_filter_named_lt fun p =>
      p.kind == .propertySignature || p.kind == .methodSignature
    rw [List.sum_map_mul_left]
    omega

/-- Members between braces are a map, or a new object that pays for its members. -/
lemma tame_objectOf (he : Source.Within w.root e) (hk : e.size ≤ k) (name : Option String) :
    Tame w m c (2 * e.size) fun d => objectOf (asks d) e name := by
  have hpos := e.node.size_pos
  have hnew : Tame w m c (2 * e.size) fun _ => newObject name (.members e) := by
    refine tame_newObject he ?_
    simp only [Shape.cost, Cursor.size]
    omega
  unfold objectOf
  dsimp only
  split
  · simp only [pure_bind]
    exact hnew
  · unfold indexedValue?
    split
    · simp only [pure_bind]
      exact hnew
    · rename_i p hindex
      have hnamed : p ∈ e.named := List.mem_of_find?_eq_some hindex
      have hlt := Cursor.size_lt_of_mem_named hnamed
      simp only [bind_assoc, pure_bind]
      refine (tame_denotedBy h fun e' he' => ?_).bind_last fun _ => tame_pure _
      have hsize := Cursor.size_lt_of_child? he'
      exact ⟨(he.named hnamed).child he', by omega, by omega⟩

lemma tame_interfaceProperties (he : Source.Within w.root e) (hk : e.size ≤ k) :
    Tame w m c (4 * e.size) fun d => interfaceProperties (asks d) e := by
  have hinherited : Tame w m c (2 * e.size) (fun d =>
      ((e.named.filter (·.kind == .extendsTypeClause)).flatMap Cursor.named).mapM fun base => do
        propertiesOf (asks d) (← asks d _ (.denoted base))) := by
    refine Tame.mono (tame_mapM (k := fun p => 2 * p.size) fun base hbase => ?_) ?_
    · obtain ⟨clause, hclause, hbase⟩ := List.mem_flatMap.1 hbase
      have hnamed : clause ∈ e.named := (List.mem_filter.1 hclause).1
      have hlt := Cursor.size_lt_of_mem_named hnamed
      have hlt' := Cursor.size_lt_of_mem_named hbase
      refine (h.denoted base ((he.named hnamed).named hbase) (by omega)).bind_last fun t => ?_
      exact tame_propertiesOf (h.properties t)
    · have hsum := e.sum_size_filter_named_lt (·.kind == .extendsTypeClause)
      have hflat := Cursor.sum_size_flatMap_named_le
        (e.named.filter (·.kind == .extendsTypeClause))
      rw [List.sum_map_mul_left]
      omega
  refine (hinherited.bind fun _ => ?_).mono (show 2 * e.size + 2 * e.size ≤ _ by omega)
  dsimp only
  split
  · rename_i body hbody
    have hsize := Cursor.size_lt_of_child? hbody
    refine Tame.bind_last ?_ fun _ => tame_pure _
    exact (tame_declaredProperties h (he.child hbody) (by omega)).mono (by omega)
  · exact (tame_pure _).bind_last fun _ => tame_pure _

lemma tame_mapProperty (how : Mapping) (p : Property) :
    Tame w m c 0 fun d => mapProperty (asks d) how p := by
  cases how with
  | optional => exact (tame_withUndefined h _).bind_last fun _ => tame_pure _
  | required => exact (tame_presentType h.display p).bind_last fun _ => tame_pure _
  | unchanged => exact tame_pure _

/-- Working out a shape costs no more than was set aside for it. -/
lemma tame_shapeProperties {shape : Shape} (hshape : shape.Within w.root) (hk : w.root.size ≤ k) :
    Tame w m c shape.cost fun d => shapeProperties (asks d) shape := by
  cases shape with
  | known properties => exact tame_pure _
  | interface declaration =>
    exact tame_interfaceProperties h hshape (hshape.size_le.trans hk)
  | members body =>
    refine (tame_declaredProperties h hshape (hshape.size_le.trans hk)).mono ?_
    simp only [Shape.cost]
    omega
  | mapped how source =>
    refine (tame_propertiesOf (h.properties source)).bind_free fun ps => ?_
    exact tame_mapM_free fun p _ => tame_mapProperty h how p
  | merged parts =>
    refine (tame_mapM_free fun t _ => ?_).bind_last fun _ => tame_pure _
    exact tame_propertiesOf (h.properties t)

end

/-! ## Properties of objects -/

/-- The store while the properties of an object are worked out: it has none. -/
def Store.begun (s : Store) (id : Nat) : Store := s.change id fun o => { o with shape := .known [] }

/-- An unknown shape that is begun counts as known, and frees what was set aside for it. -/
lemma Store.begun_of_unknown {s : Store} {id : Nat} {o : ObjectInfo} (ho : s.objects[id]? = some o)
    (hunknown : o.shape.isKnown = false) :
    (s.begun id).known = s.known + 1 ∧ (s.begun id).held + o.shape.cost = s.held := by
  rcases s.exists_of_change id fun o => { o with shape := .known [] } with
    ⟨hnone, -⟩ | ⟨before, o', after, ho', hlist, hchange⟩
  · rw [hnone] at ho
    cases ho
  · obtain rfl : o' = o := Option.some.inj (ho'.symm.trans ho)
    rw [begun, known, known, held, held, hlist, hchange]
    simp only [List.countP_append, List.countP_cons, List.map_append, List.map_cons,
      List.sum_append, List.sum_cons, hunknown, Shape.isKnown_known, Shape.cost_known, if_true,
      Bool.false_eq_true, if_false]
    omega

/-- What is left to do for the properties of an object once they are begun. -/
def finishProperties (ask : Answers) (id : Nat) (shape : Shape) : Infer (Option (List Property)) := do
  let properties ← shapeProperties ask shape
  modifyObject id fun o => { o with shape := .known properties }
  return some properties

/-- The properties of an object are known, or they are begun and finished. -/
lemma exec_objectProperties (s : Store) (id : Nat) :
    (∃ properties, ∀ ask c,
      (objectProperties ask (.object id)).exec c s = (.ok (some properties), s)) ∨
    ∃ o, s.objects[id]? = some o ∧ o.shape.isKnown = false ∧ ∀ ask c,
      (objectProperties ask (.object id)).exec c s =
        (finishProperties ask id o.shape).exec c (s.begun id) := by
  have hinfo (ask : Answers) (c : Context) : (objectProperties ask (.object id)).exec c s = _ :=
    exec_bind_ok (exec_objectInfo id)
  rcases ho : s.objects[id]? with - | ⟨name, shape⟩
  · rw [ho, Option.getD_none] at hinfo
    exact .inl ⟨[], hinfo⟩
  · rw [ho, Option.getD_some] at hinfo
    cases shape with
    | known properties => exact .inl ⟨properties, hinfo⟩
    | _ => exact .inr ⟨_, rfl, rfl, hinfo⟩

lemma Store.within_begun {root : Node} {s : Store} {id : Nat} {o : ObjectInfo}
    (hs : s.Within root) (ho : s.objects[id]? = some o) :
    (s.begun id).Within root ∧ s.Grows (s.begun id) ∧ o.shape.Within root := by
  refine ⟨within_change (fun _ => .inr rfl) hs, grows_change fun _ => .inr rfl, hs o ?_⟩
  exact Array.mem_toList_iff.2 (Array.mem_of_getElem? ho)

section

variable {id : Nat} (hfinish : ∀ {shape : Shape}, shape.Within w.root →
  Tame w m c shape.cost fun d => finishProperties (asks d) id shape)

include hfinish

/-- Properties cost no more than was set aside for the unknown shape. -/
lemma spends_objectProperties {s : Store} (hs : s.Within w.root) (d depth : Nat) :
    Spends w 0 c s ((objectProperties (asks d) (.object id)).exec (c.atDepth depth) s) := by
  rcases exec_objectProperties s id with ⟨ps, hexec⟩ | ⟨o, ho, hunknown, hexec⟩
  · rw [hexec]
    exact spends_self hs _
  obtain ⟨hwithin, hgrows, hshape⟩ := Store.within_begun hs ho
  obtain ⟨-, hheld⟩ := Store.begun_of_unknown ho hunknown
  have hcredit : c.credit (s.begun id) = c.credit s := rfl
  have hrest := (hfinish hshape).spends d depth (s.begun id) hwithin
  rw [hexec]
  refine ⟨hrest.within, hgrows.trans hrest.grows, fun hfree => ?_, fun hfree a ha => ?_⟩
  · have := hrest.held hfree
    omega
  · have := hrest.credit hfree a ha
    omega

/-- Working out properties comes to an end, since one shape more is known while it lasts. -/
lemma halts_objectProperties (hE : w.ending) {s : Store} (hs : s.Within w.root)
    (hm : w.remaining c s < m + 1)
    (hb : Bounded w.bound (fun d => objectProperties (asks d) (.object id)) c s) :
    Halts (fun d => objectProperties (asks d) (.object id)) c s := by
  rcases exec_objectProperties s id with ⟨ps, hexec⟩ | ⟨o, ho, hunknown, hexec⟩
  · exact ⟨(.ok (some ps), s), by simp, .of_exec fun d e => hexec _ _⟩
  obtain ⟨hwithin, -, hshape⟩ := Store.within_begun hs ho
  obtain ⟨hknown, -⟩ := Store.begun_of_unknown ho hunknown
  have hb' : Bounded w.bound (fun d => finishProperties (asks d) id o.shape) c (s.begun id) := by
    filter_upwards [hb] with d hb
    obtain ⟨depth, hb⟩ := hb
    rw [hexec] at hb
    exact ⟨depth, hb⟩
  have hsize : (s.begun id).objects.size ≤ w.bound := (hfinish hshape).size_le hwithin hb'
  have hless : w.remaining c (s.begun id) < m := by
    have hle := (s.begun id).known_le_size
    unfold Setting.remaining at hm ⊢
    omega
  obtain ⟨out, hne, hgives⟩ := (hfinish hshape).ends hE _ hwithin hless hb'
  refine ⟨out, hne, ?_⟩
  filter_upwards [hgives] with d hgives depth
  rw [hexec, hgives depth]

end

/-- Properties are worked out once.  From then on less remains to do, and what comes out of it was
set aside. -/
lemma tame_objectProperties (h : Asks w m k c asks) (hk : w.root.size ≤ k) (t : Ty) :
    Tame w (m + 1) c 0 fun d => objectProperties (asks d) t := by
  cases t
  case object id =>
    have hfinish {shape : Shape} (hshape : shape.Within w.root) :
        Tame w m c shape.cost fun d => finishProperties (asks d) id shape :=
      (tame_shapeProperties h hshape hk).bind_last fun ps =>
        (tame_modifyObject id fun _ => .inr rfl).bind_last fun _ => tame_pure _
    exact ⟨fun d depth s hs => spends_objectProperties hfinish hs d depth,
      fun hE s hs hm hb => halts_objectProperties hfinish hE hs hm hb⟩
  all_goals exact tame_pure none

/-! ## Aliases -/

/-- The type that a declaration gives costs no more than was set aside for the declaration. -/
lemma tame_declaredType {e : Cursor} (h : Asks w m k c asks) (hk : w.root.size < k)
    (he : Source.Within w.root e) (name : String) :
    Tame w m c (4 * e.size + 1) fun d => declaredType (asks d) name e := by
  unfold declaredType
  split
  · refine tame_newObject he ?_
    simp only [Shape.cost]
    omega
  · split
    · rename_i value hvalue
      have hwithin := he.child hvalue
      have hsize := Cursor.size_lt_of_child? hvalue
      have hle := hwithin.size_le
      split
      · exact (tame_objectOf h hwithin (by omega) _).mono (by omega)
      · exact (h.denoted value hwithin (by omega)).mono (by omega)
    · exact tame_pure _

lemma sum_filter_add_le {α : Type} {p q : α → Bool} (f : α → Nat) {l : List α} {b : α}
    (hpq : ∀ a, p a = true → q a = true) (hb : b ∈ l) (hq : q b = true) (hp : p b = false) :
    ((l.filter p).map f).sum + f b ≤ ((l.filter q).map f).sum := by
  have hle (l : List α) : ((l.filter p).map f).sum ≤ ((l.filter q).map f).sum :=
    ((List.monotone_filter_right l hpq).map f).sum_le_sum fun _ _ => Nat.zero_le _
  obtain ⟨before, after, rfl⟩ := List.append_of_mem hb
  have hbefore := hle before
  have hafter := hle after
  simp only [List.filter_append, List.filter_cons, hp, hq, List.map_append, List.sum_append,
    Bool.false_eq_true, if_false, if_true, List.map_cons, List.sum_cons]
  omega

/-- What an alias can give is set aside until the alias is being resolved. -/
lemma Context.credit_inAlias {s : Store} {name : String} {e : Cursor}
    (hmem : (name, e) ∈ c.aliases) (hopen : name ∉ c.resolvingAliases)
    (hnew : s.aliases.lookup name = none) :
    (c.inAlias name).credit s + (4 * e.size + 1) ≤ c.credit s := by
  refine sum_filter_add_le (fun a => 4 * a.2.size + 1) (fun a ha => ?_) hmem ?_ ?_
  · simp only [Context.inAlias, Bool.and_eq_true, Bool.not_eq_true', List.contains_cons,
      Bool.or_eq_false_iff] at ha ⊢
    exact ⟨ha.1.2, ha.2⟩
  · simp [hopen, hnew]
  · simp [Context.inAlias]

/-- An alias that is resolved counts no more than one that is being resolved. -/
lemma Context.credit_resolved (s : Store) (name : String) (t : Ty) :
    c.credit { s with aliases := (name, t) :: s.aliases } = (c.inAlias name).credit s := by
  unfold Context.credit
  congr 2
  refine List.filter_congr fun a _ => ?_
  simp only [Context.inAlias, List.lookup_cons, List.contains_cons]
  cases a.1 == name <;> simp

lemma Setting.remaining_inAlias {s : Store} {name : String} {e : Cursor}
    (hmem : (name, e) ∈ c.aliases) (hopen : name ∉ c.resolvingAliases) :
    w.remaining (c.inAlias name) s < w.remaining c s := by
  have hname : name ∈ (c.aliases.map (·.1)).toFinset :=
    List.mem_toFinset.2 (List.mem_map_of_mem hmem)
  have hcard := card_sdiff_cons_lt hname hopen
  unfold Setting.remaining Setting.pending
  simp only [Context.inAlias]
  omega

lemma exec_settleAlias (name : String) (t : Ty) (s : Store) :
    ∃ s', (∀ c, (settleAlias name t).exec c s = (.ok t, s')) ∧ s.Grows s' ∧ s'.held ≤ s.held ∧
      (∀ root, s.Within root → s'.Within root) ∧
      ∀ c : Context, c.credit s' = (c.inAlias name).credit s := by
  have hname (o : ObjectInfo) : ({ o with name := o.name <|> some name } : ObjectInfo).shape =
      o.shape ∨ ({ o with name := o.name <|> some name } : ObjectInfo).shape.isKnown = true :=
    .inl rfl
  cases t
  case object id =>
    exact ⟨{ s.change id _ with aliases := (name, .object id) :: s.aliases }, fun _ => rfl,
      ⟨(Store.grows_change hname).size, (Store.grows_change hname).known⟩,
      Store.held_change_le hname, fun root hs => Store.within_change hname hs,
      fun c => c.credit_resolved s name _⟩
  all_goals
    exact ⟨{ s with aliases := (name, _) :: s.aliases }, fun _ => rfl, ⟨le_rfl, le_rfl⟩, le_rfl,
      fun _ hs => hs, fun c => c.credit_resolved s name _⟩

/-- An alias is resolved or being resolved, or it is resolved now. -/
lemma exec_aliasType (c : Context) (s : Store) (name : String) (e : Cursor) :
    (∃ t, ∀ ask d, (aliasType ask name e).exec (c.atDepth d) s = (.ok t, s)) ∨
    (s.aliases.lookup name = none ∧ name ∉ c.resolvingAliases ∧ ∀ ask d,
      (aliasType ask name e).exec (c.atDepth d) s =
        match (declaredType ask name e).exec ((c.inAlias name).atDepth d) s with
        | (.ok t, s₁) => (settleAlias name t).exec (c.atDepth d) s₁
        | (.error err, s₁) => (.error err, s₁)) := by
  rcases hlookup : s.aliases.lookup name with - | t
  · by_cases hopen : name ∈ c.resolvingAliases
    · exact .inl ⟨.named name [], fun ask d => exec_aliasType_open ask hlookup hopen⟩
    · refine .inr ⟨rfl, hopen, fun ask d => ?_⟩
      have hin : (withReader (Context.inAlias name) (declaredType ask name e)).exec (c.atDepth d) s =
          (declaredType ask name e).exec ((c.inAlias name).atDepth d) s := rfl
      rw [exec_aliasType_new (c := c.atDepth d) ask hlookup hopen, exec_bind, hin]
      rcases (declaredType ask name e).exec ((c.inAlias name).atDepth d) s with ⟨err | t, s₁⟩ <;> rfl
  · exact .inl ⟨t, fun ask d => exec_aliasType_resolved ask hlookup⟩

section

variable {name : String} {e : Cursor} (hmem : (name, e) ∈ c.aliases)
  (hdeclared : Tame w m (c.inAlias name) (4 * e.size + 1) fun d => declaredType (asks d) name e)

include hmem hdeclared

/-- Resolving an alias spends no more than was set aside for it. -/
lemma spends_aliasType {s : Store} (hs : s.Within w.root) (d depth : Nat) :
    Spends w 0 c s ((aliasType (asks d) name e).exec (c.atDepth depth) s) := by
  rcases exec_aliasType c s name e with ⟨t, hexec⟩ | ⟨hnew, hopen, hexec⟩
  · rw [hexec]
    exact spends_self hs _
  have hcredit := c.credit_inAlias hmem hopen hnew
  have hspends := hdeclared.spends d depth s hs
  rw [hexec]
  rcases hout : (declaredType (asks d) name e).exec ((c.inAlias name).atDepth depth) s with
    ⟨err | t, s₁⟩
  · rw [hout] at hspends
    refine ⟨hspends.within, hspends.grows, fun hfree => ?_, fun _ _ ha => by cases ha⟩
    have := hspends.held hfree
    simp only at this ⊢
    omega
  · rw [hout] at hspends
    obtain ⟨s₂, hsettle, hgrows, hheld, hwithin, hcredit₂⟩ := exec_settleAlias name t s₁
    simp only [hsettle]
    refine ⟨hwithin _ hspends.within, hspends.grows.trans hgrows, fun hfree => ?_,
      fun hfree a _ => ?_⟩
    · have := hspends.held hfree
      simp only at this ⊢
      omega
    · have := hspends.credit hfree t rfl
      have := hcredit₂ c
      simp only at *
      omega

/-- Resolving an alias comes to an end, since less remains to do for its declaration. -/
lemma halts_aliasType (hE : w.ending) {s : Store} (hs : s.Within w.root)
    (hm : w.remaining c s < m + 1)
    (hb : Bounded w.bound (fun d => aliasType (asks d) name e) c s) :
    Halts (fun d => aliasType (asks d) name e) c s := by
  rcases exec_aliasType c s name e with ⟨t, hexec⟩ | ⟨hnew, hopen, hexec⟩
  · exact ⟨(.ok t, s), by simp, .of_exec fun d e => hexec _ _⟩
  have hb' : Bounded w.bound (fun d => declaredType (asks d) name e) (c.inAlias name) s := by
    filter_upwards [hb] with d hb
    obtain ⟨depth, hb⟩ := hb
    refine ⟨depth, le_trans ?_ hb⟩
    rw [hexec]
    rcases hout : (declaredType (asks d) name e).exec ((c.inAlias name).atDepth depth) s with
      ⟨err | t, s₁⟩
    · exact le_rfl
    · obtain ⟨s₂, hsettle, hgrows, -⟩ := exec_settleAlias name t s₁
      simp only [hsettle]
      exact hgrows.size
  have hless := w.remaining_inAlias (s := s) hmem hopen
  obtain ⟨⟨err | t, s₁⟩, hne, hgives⟩ := hdeclared.ends hE s hs (by omega) hb'
  · refine ⟨(.error err, s₁), fun h => hne (by simpa using h), ?_⟩
    filter_upwards [hgives] with d hgives depth
    rw [hexec, hgives depth]
  · obtain ⟨s₂, hsettle, -⟩ := exec_settleAlias name t s₁
    refine ⟨(.ok t, s₂), by simp, ?_⟩
    filter_upwards [hgives] with d hgives depth
    rw [hexec, hgives depth]
    exact hsettle _

end

/-- An alias is resolved once, and from then on less remains to do. -/
lemma tame_aliasType {name : String} {e : Cursor} (hmem : (name, e) ∈ c.aliases)
    (he : Source.Within w.root e) (h : Asks w m k (c.inAlias name) asks) (hk : w.root.size < k) :
    Tame w (m + 1) c 0 fun d => aliasType (asks d) name e where
  spends d depth _ hs := spends_aliasType hmem (tame_declaredType h hk he name) hs d depth
  ends hE _ hs hm hb := halts_aliasType hmem (tame_declaredType h hk he name) hE hs hm hb

/-! ## Type expressions -/

section

variable (h : Asks w m k c asks) {e : Cursor}

lemma tame_enumMemberType (e : Cursor) (member : String) :
    Tame w m c n fun _ => enumMemberType e member := by
  refine ((tame_ofNumbers _).bind_last fun members => ?_).mono (Nat.zero_le n)
  split <;> exact tame_pure _

lemma tame_literalType (e? : Option Cursor) : Tame w m c n fun _ => literalType e? := by
  unfold literalType
  split
  · exact tame_pure _
  · split
    all_goals first | exact tame_pure _ | skip
    refine ((tame_ofNumbers _).bind_last fun value => ?_).mono (Nat.zero_le n)
    split <;> exact tame_pure _

lemma tame_nestedType (e : Cursor) : Tame w m c n fun _ => nestedType e := by
  unfold nestedType
  split
  · refine Tame.bind_read ?_ fun _ _ => rfl
    split
    · exact tame_enumMemberType _ _
    · exact tame_pure _
  · exact tame_pure _

lemma tame_recordType (key value : Ty) : Tame w m c 1 fun _ => recordType key value := by
  unfold recordType
  split
  · exact tame_newObject trivial le_rfl
  · exact tame_pure _

include h

lemma tame_namedType (halias : ∀ name e, (name, e) ∈ c.aliases →
      Tame w m c 0 fun d => aliasType (asks d) name e) (name : String) (args : List Ty) :
    Tame w m c 0 fun d => namedType (asks d) name args := by
  refine Tame.bind_read ?_ fun _ _ => rfl
  split
  · rename_i declaration hlookup
    exact halias name declaration (mem_of_lookup hlookup)
  · refine ((tame_ofNumbers _).bind_last fun _ => tame_pure _).bind_free fun ts => ?_
    exact tame_makeUnion h.display ts
  · split <;> exact tame_pure _

lemma tame_selectedType (keep : Bool) (source keys : Ty) :
    Tame w m c 1 fun d => selectedType (asks d) keep source keys :=
  (tame_propertiesOf (h.properties source)).bind_free fun _ => tame_newObject trivial le_rfl

lemma tame_intersectionType (parts : List Ty) :
    Tame w m c 1 fun d => intersectionType (asks d) parts := by
  refine (tame_filterM fun t _ => ?_).bind_free fun objects => ?_
  · exact (h.properties t).bind_last fun _ => tame_pure _
  · split
    · exact tame_pure _
    · exact tame_pure _
    · exact tame_newObject trivial le_rfl

lemma tame_genericType (halias : ∀ name e, (name, e) ∈ c.aliases →
      Tame w m c 0 fun d => aliasType (asks d) name e) (he : Source.Within w.root e)
    (hk : e.size ≤ k) : Tame w m c (2 * e.size) fun d => genericType (asks d) e := by
  have hpos := e.node.size_pos
  have hsize : 2 * (e.size - 1) + 1 ≤ 2 * e.size := by
    simp only [Cursor.size]
    omega
  refine ((tame_typeArguments h he hk).bind fun args => ?_).mono hsize
  unfold genericOf
  split
  all_goals first
    | exact tame_pure _
    | exact tame_recordType _ _
    | exact tame_newObject trivial le_rfl
    | exact (tame_filterUnion h.display _ _).mono (Nat.zero_le 1)
    | exact tame_selectedType h _ _ _
    | exact (tame_namedType h halias _ _).mono (Nat.zero_le 1)

/-- The type of a variable in the place of a type: nothing is said about what it costs. -/
lemma tame_typeQuery (he : Source.Within w.root e) (hkind : e.kind = .typeQuery) {target : Cursor}
    (htarget : Source.Within w.root target) :
    Tame w m c n fun d => asks d _ (.typeOf target) := by
  have hquery : ¬QueryFree w.root := fun hfree => hfree e he.mem_preorder hkind
  have hask := h.typeOf target htarget
  refine ⟨fun d e s hs => ?_, hask.ends⟩
  have hspends := hask.spends d e s hs
  exact ⟨hspends.within, hspends.grows, fun hfree => absurd hfree hquery,
    fun hfree => absurd hfree hquery⟩

/-- What a type expression denotes costs two objects a node, without type queries. -/
theorem tame_typeExpression (halias : ∀ name e, (name, e) ∈ c.aliases →
      Tame w m c 0 fun d => aliasType (asks d) name e) (he : Source.Within w.root e)
    (hk : e.size ≤ k) : Tame w m c (2 * e.size) fun d => denotation (asks d) e := by
  have hpos := e.node.size_pos
  have hsize : 2 * (e.size - 1) + 1 ≤ 2 * e.size := by
    simp only [Cursor.size]
    omega
  have hfirst : Tame w m c (2 * e.size) fun d => denotedBy (asks d) e.named.head? := by
    refine tame_denotedBy h fun e' he' => ?_
    have hnamed : e' ∈ e.named := List.mem_of_head? he'
    have hlt := Cursor.size_lt_of_mem_named hnamed
    exact ⟨he.named hnamed, by omega, by omega⟩
  have hall := (tame_denotedNamed h he hk).mono (Nat.le_of_succ_le hsize)
  unfold denotation
  split
  · exact hfirst
  · exact hfirst
  · exact hfirst
  · exact hfirst
  · exact tame_pure _
  · exact tame_literalType _
  · exact tame_pure _
  · exact tame_pure _
  · exact hall.bind_last fun ts => tame_makeUnion h.display ts
  · exact ((tame_denotedNamed h he hk).bind fun ts => tame_intersectionType h ts).mono hsize
  · exact hfirst.bind_last fun _ => tame_pure _
  · exact hall.bind_last fun _ => tame_pure _
  · exact tame_objectOf h he hk _
  · exact tame_objectOf h he hk _
  · exact (tame_namedType h halias _ _).mono (Nat.zero_le _)
  · exact tame_nestedType _
  · exact tame_genericType h halias he hk
  · exact tame_pure _
  · exact tame_pure _
  · rename_i hkind
    split
    · rename_i target htarget
      split
      · exact tame_typeQuery h he hkind (he.named (List.mem_of_head? htarget))
      · exact tame_pure _
    · exact tame_pure _
  · exact tame_pure _
  · exact tame_pure _

end

end

end RouteScribe.Typing
