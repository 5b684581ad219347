import RouteScribe.Proofs.Typing.Descriptions
import RouteScribe.Proofs.Typing.Unions

/-!
# Finite graphs of types

A `TypeGraph` is a finite graph of types: objects whose properties are all worked out, and which may
refer to each other and to themselves in any way.  All other types are finite trees over references
to objects, so every cycle of a graph goes through an object.

Looking at a graph does not change it.  Its objects can be asked for their properties, its types are
displayed without a limit on the length of integers (`TypeGraph.shows`: the objects that are not being displayed yet are the measure), and so
every type has a view, one level deep, whatever it refers to.
-/

namespace RouteScribe.Typing

open Filter Infer
open Source (Cursor)

/-- An object of a graph of types. -/
structure GraphObject where
  name : Option String
  properties : List Property

/-- A finite graph of types, in a file. -/
structure TypeGraph where
  file : Cursor
  objects : Array GraphObject
  aliases : List (String × Ty)

namespace TypeGraph

variable (g : TypeGraph)

/-- The store that holds a graph: the properties of all objects are known. -/
def store : Store where
  objects := g.objects.map fun o => ⟨o.name, .known o.properties⟩
  aliases := g.aliases

/-- What inference reads before it looks at a graph. -/
def context : Context := .ofRoot 0 g.file

/-- An object of a graph; a reference to no object is to one without properties. -/
def object (id : Nat) : GraphObject := (g.objects[id]?).getD ⟨none, []⟩

/-- The properties of an object of a graph. -/
def properties (id : Nat) : List Property := (g.object id).properties

lemma objectInfo_store (id : Nat) :
    (g.store.objects[id]?).getD ⟨none, .known []⟩ =
      ⟨(g.object id).name, .known (g.properties id)⟩ := by
  simp only [store, properties, object, Array.getElem?_map]
  cases g.objects[id]? <;> rfl

lemma properties_of_size_le {id : Nat} (h : g.objects.size ≤ id) : g.properties id = [] := by
  simp only [properties, object, Array.getElem?_eq_none h, Option.getD_none]

/-- The properties of an object are known. -/
lemma gives_properties (c : Context) (id : Nat) :
    Gives (fun d => answer d _ (.properties (.object id))) c g.store
      (.ok (some (g.properties id)), g.store) := by
  refine .answer (.of_exec fun d e => ?_)
  simp only [answerWith, objectProperties]
  rw [exec_bind_ok (exec_objectInfo id), objectInfo_store]
  rfl

lemma gives_propertiesOf (c : Context) (id : Nat) :
    Gives (fun d => propertiesOf (answer d) (.object id)) c g.store
      (.ok (g.properties id), g.store) :=
  (g.gives_properties c id).bind (gives_pure _)

/-! ## Display -/

/-- Every type is displayed in a context. -/
def Shows (c : Context) : Prop :=
  ∀ t, ∃ text, Gives (fun d => answer d _ (.display t)) c g.store (.ok text, g.store)

variable {g} {c : Context}

/-- The texts of some types. -/
lemma Shows.texts (h : g.Shows c) (ts : List Ty) :
    ∃ texts, Gives (fun d => ts.mapM fun t => answer d _ (.display t)) c g.store
      (.ok texts, g.store) := by
  choose text htext using h
  exact ⟨ts.map text, gives_mapM fun t _ => htext t⟩

/-- Unions can be made of types that are displayed. -/
lemma Shows.makeUnion (h : g.Shows c) (ts : List Ty) :
    ∃ u, Gives (fun d => makeUnion (answer d) ts) c g.store (.ok u, g.store) := by
  have hkey (t : Ty) : ∃ key, Gives (fun d => unionKey (answer d) t) c g.store
      (.ok key, g.store) := by
    cases t
    case object id => exact ⟨.object id, gives_pure _⟩
    all_goals
      obtain ⟨text, htext⟩ := h _
      exact ⟨.display text, htext.bind (gives_pure _)⟩
  choose key hkey using hkey
  exact ⟨_, (gives_mapM fun t _ => (hkey t).bind (gives_pure (key t, t))).bind (gives_pure _)⟩

lemma Shows.presentType (h : g.Shows c) (p : Property) :
    ∃ u, Gives (fun d => presentType (answer d) p) c g.store (.ok u, g.store) := by
  unfold Typing.presentType
  split
  · unfold filterUnion
    split
    · exact h.makeUnion _
    · exact ⟨_, gives_pure _⟩
  · exact ⟨_, gives_pure _⟩

lemma Shows.displayProperties (h : g.Shows c) (ps : List Property) :
    ∃ text, Gives (fun d => displayProperties (answer d) ps) c g.store (.ok text, g.store) := by
  have hmember (p : Property) : ∃ text, Gives (fun d => do
      let type ← answer d _ (.display (← Typing.presentType (answer d) p))
      return p.name ++ (if p.optional then "?" else "") ++ ": " ++ type ++ ";") c g.store
      (.ok text, g.store) := by
    obtain ⟨u, hu⟩ := h.presentType p
    obtain ⟨text, htext⟩ := h u
    exact ⟨_, hu.bind (htext.bind (gives_pure _))⟩
  choose text htext using hmember
  exact ⟨_, (gives_mapM fun p _ => htext p).bind (gives_pure _)⟩

/-- An object is displayed if its properties are displayed inside it. -/
lemma exists_text_object (id : Nat)
    (h : id < g.objects.size → id ∉ c.displaying → g.Shows (c.inDisplay id)) :
    ∃ text, Gives (fun d => answer d _ (.display (.object id))) c g.store (.ok text, g.store) := by
  have hinfo : Gives (fun _ => objectInfo id) c g.store
      (.ok ⟨(g.object id).name, .known (g.properties id)⟩, g.store) :=
    .of_exec fun d e => by rw [exec_objectInfo, objectInfo_store]
  rcases hname : (g.object id).name with - | name
  · by_cases hseen : id ∈ c.displaying
    · refine ⟨"\x7b...\x7d", .answer (hinfo.bind ?_)⟩
      simp only [hname]
      refine Gives.bind_read ?_ fun d e => rfl
      simpa [hseen] using gives_pure "\x7b...\x7d"
    · obtain ⟨text, htext⟩ : ∃ text, Gives (fun d => Typing.displayProperties (answer d)
          (g.properties id)) (c.inDisplay id) g.store (.ok text, g.store) := by
        by_cases hid : id < g.objects.size
        · exact (h hid hseen).displayProperties _
        · rw [properties_of_size_le g (not_lt.1 hid)]
          exact ⟨_, .of_exec fun d e => rfl⟩
      refine ⟨text, .answer (hinfo.bind ?_)⟩
      simp only [hname]
      refine Gives.bind_read ?_ fun d e => rfl
      have hinside : Gives (fun d => do
          Typing.displayProperties (answer d) (← propertiesOf (answer d) (.object id)))
          (c.inDisplay id) g.store (.ok text, g.store) :=
        (g.gives_propertiesOf _ id).bind htext
      simp only [List.contains_iff_mem, hseen, if_false]
      exact hinside.changed fun e => rfl
  · refine ⟨name, .answer (hinfo.bind ?_)⟩
    simp only [hname]
    exact gives_pure name

lemma gives_numberText (hc : c.limited = false) (n : Numeral) :
    Gives (fun _ => numberText n) c g.store (.ok n.text, g.store) := by
  refine Gives.bind_read (f := fun _ x =>
    if x.limited && n.isLong then throw .longNumber else return n.text) ?_ fun _ _ => rfl
  simp only [hc, Bool.false_and, Bool.false_eq_true, if_false]
  exact gives_pure n.text

/-- Types are displayed in a context if they are displayed inside each further object. -/
lemma shows_of_inside (hc : c.limited = false)
    (h : ∀ id < g.objects.size, id ∉ c.displaying → g.Shows (c.inDisplay id)) (t : Ty) :
    ∃ text, Gives (fun d => answer d _ (.display t)) c g.store (.ok text, g.store) := by
  have hlist (ts : List Ty)
      (hts : ∀ t ∈ ts, ∃ text, Gives (fun d => answer d _ (.display t)) c g.store
        (.ok text, g.store)) :
      ∃ texts, Gives (fun d => ts.mapM fun t => answer d _ (.display t)) c g.store
        (.ok texts, g.store) := by
    choose! text htext using hts
    exact ⟨ts.map text, gives_mapM htext⟩
  match t with
  | .primitive p => exact ⟨_, .answer (gives_pure _)⟩
  | .literal (.string s) => exact ⟨_, .answer (gives_pure _)⟩
  | .literal (.number n) => exact ⟨_, .answer (gives_numberText hc n)⟩
  | .literal (.boolean b) => exact ⟨_, .answer (gives_pure _)⟩
  | .enumMember e m v => exact ⟨_, .answer (gives_pure _)⟩
  | .function signature => exact ⟨_, .answer (gives_pure _)⟩
  | .named name [] => exact ⟨_, .answer (gives_pure _)⟩
  | .union members =>
    obtain ⟨texts, htexts⟩ := hlist members fun m hm => shows_of_inside hc h m
    exact ⟨_, .answer (htexts.bind (gives_pure _))⟩
  | .tuple elements =>
    obtain ⟨texts, htexts⟩ := hlist elements fun m hm => shows_of_inside hc h m
    exact ⟨_, .answer (htexts.bind (gives_pure _))⟩
  | .named name (arg :: args) =>
    obtain ⟨texts, htexts⟩ := hlist (arg :: args) fun m hm => shows_of_inside hc h m
    exact ⟨_, .answer (htexts.bind (gives_pure _))⟩
  | .array element =>
    obtain ⟨text, htext⟩ := shows_of_inside hc h element
    exact ⟨_, .answer (htext.bind (gives_pure _))⟩
  | .map value =>
    obtain ⟨text, htext⟩ := shows_of_inside hc h value
    exact ⟨_, .answer (htext.bind (gives_pure _))⟩
  | .promise inner =>
    obtain ⟨text, htext⟩ := shows_of_inside hc h inner
    exact ⟨_, .answer (htext.bind (gives_pure _))⟩
  | .object id => exact exists_text_object id (h id)
termination_by sizeOf t
decreasing_by
  all_goals first
    | (have hsize := List.sizeOf_lt_of_mem hm; simp +arith at hsize ⊢; omega)
    | simp +arith

variable (g c) in
/-- The objects of a graph that are not being displayed. -/
def unseen : Finset Nat := Finset.range g.objects.size \ c.displaying.toFinset

lemma card_unseen_inDisplay {id : Nat} (hid : id < g.objects.size) (hseen : id ∉ c.displaying) :
    (g.unseen (c.inDisplay id)).card < (g.unseen c).card :=
  card_sdiff_cons_lt (Finset.mem_range.2 hid) hseen

variable (g c) in
/-- Every type of a graph is displayed: an object stands in the display of itself as dots, so each
object is displayed in full at most once on the way down. -/
theorem shows (hc : c.limited = false) : g.Shows c := by
  induction hn : (g.unseen c).card using Nat.strong_induction_on generalizing c with
  | _ n ih =>
    exact shows_of_inside hc fun id hid hseen =>
      ih _ (hn ▸ card_unseen_inDisplay hid hseen) _ hc rfl

/-! ## Views -/

variable (g) in
/-- What the union of some types of a graph is. -/
def IsUnion (ts : List Ty) (u : Ty) : Prop :=
  Gives (fun d => Typing.makeUnion (answer d) ts) g.context g.store (.ok u, g.store)

variable (g) in
lemma exists_isUnion (ts : List Ty) : ∃ u, g.IsUnion ts u := (shows g g.context rfl).makeUnion ts

lemma IsUnion.unique {ts : List Ty} {u u' : Ty} (h : g.IsUnion ts u) (h' : g.IsUnion ts u') :
    u = u' := by
  simpa using Gives.unique h h'

end TypeGraph

namespace TypeGraph

variable {g : TypeGraph} {t : Ty}

variable (g) in
/-- What a type of a graph is, one level deep. -/
def HasView (t : Ty) (w : Schema.View Ty Nat) : Prop :=
  Gives (fun d => (view t).toDepth d) g.context g.store (.ok w, g.store)

lemma hasView_of_sees {w : Schema.View Ty Nat} (h : Sees g.context g.store t w g.store) :
    g.HasView t w :=
  Eventually.mono h fun _ h _ => h

lemma hasView_union (members : List Ty) : g.HasView (.union members) (.union members) :=
  gives_pure _

lemma hasView_of_kind {kind : PrimitiveKind} (h : t.kind? = some kind) :
    g.HasView t (if t.isUndefined then .undefined else .primitive kind) :=
  hasView_of_sees (sees_of_kind h)

lemma hasView_array (element : Ty) : g.HasView (.array element) (.array element) := gives_pure _

lemma hasView_tuple_nil : g.HasView (.tuple []) (.array .any) := gives_pure _

lemma hasView_map (value : Ty) : g.HasView (.map value) (.map value) := gives_pure _

/-- The elements of a tuple belong to the union of its types. -/
lemma hasView_tuple {first : Ty} {rest : List Ty} {u : Ty} (h : g.IsUnion (first :: rest) u) :
    g.HasView (.tuple (first :: rest)) (.array u) := by
  have helement : Gives (fun d => (elementType? ask (.tuple (first :: rest))).toDepth d) g.context
      g.store (.ok (some u), g.store) := by
    simp only [elementType?, toDepth_bind, toDepth_makeUnion]
    exact (Gives.toDepth h).bind (gives_pure _)
  exact helement.bind (gives_pure _)

lemma hasView_object (id : Nat) :
    g.HasView (.object id) (.object (some id) (g.properties id)) :=
  hasView_of_sees (sees_object (g.gives_properties g.context id))

/-- A type about whose values nothing is known is seen by its text. -/
lemma hasView_of_isOpaque (h : t.isOpaque = true) : ∃ text, g.HasView t (.other text) := by
  obtain ⟨text, htext⟩ := shows g g.context rfl t
  exact ⟨text, hasView_of_sees (sees_of_isOpaque h htext)⟩

end TypeGraph

end RouteScribe.Typing
