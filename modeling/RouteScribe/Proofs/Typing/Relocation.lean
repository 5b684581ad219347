import RouteScribe.Proofs.Typing.Renaming
import RouteScribe.Proofs.Typing.Runs

/-!
# Runs in another store

A run that starts from a small store can be repeated in a larger one: the objects of the small store
lie elsewhere in the larger one, and new objects come behind what is there.  A `Relocation` says where
they lie, and which aliases the larger store has resolved on its own; `Embeds` says that a store holds
another one in this way.

`Moved` relates two runs: whenever the first ends with an answer, having resolved none of the aliases
that are out of its sight, the second ends with the renamed answer, and the stores are related again.
The rules below follow how runs are put together, so that one statement per function of inference
gives the same for all of it.  Only the resolution of aliases looks at what was resolved before, so
only there the two stores can part.
-/

namespace RouteScribe.Typing

open Infer

/-! ## Renaming in a store -/

/-- The property with the objects of its type under other identities. -/
def renameProperty (ρ : Nat → Nat) (p : Property) : Property := { p with type := p.type.rename ρ }

/-- What properties are worked out from, with objects under other identities. -/
def Shape.rename (ρ : Nat → Nat) : Shape → Shape
  | .known properties => .known (properties.map (renameProperty ρ))
  | .interface declaration => .interface declaration
  | .members body => .members body
  | .mapped how source => .mapped how (source.rename ρ)
  | .merged parts => .merged (parts.map (Ty.rename ρ))

def ObjectInfo.rename (ρ : Nat → Nat) (o : ObjectInfo) : ObjectInfo := ⟨o.name, o.shape.rename ρ⟩

/-- The context of the repeated run. -/
def Context.rename (ρ : Nat → Nat) (c : Context) : Context :=
  { c with displaying := c.displaying.map ρ }

/-- Other places for objects, and the aliases that are resolved there already. -/
structure Relocation where
  place : Nat → Nat
  injective : Function.Injective place
  hidden : List String

/-- The names of the aliases that a store has resolved. -/
def Store.resolved (s : Store) : List String := s.aliases.map (·.1)

/-- A store holds another one: its objects lie at other places, and an alias that is not hidden is
resolved in both or in neither. -/
structure Embeds (v : Relocation) (s s' : Store) : Prop where
  next : ∀ i, v.place (s.objects.size + i) = s'.objects.size + i
  objects : ∀ id, s'.objects[v.place id]? = (s.objects[id]?).map (ObjectInfo.rename v.place)
  aliases : ∀ name, name ∉ v.hidden →
    s'.aliases.lookup name = (s.aliases.lookup name).map (Ty.rename v.place)

/-- The aliases of a later store: none is lost, and those that are new are declared in the file. -/
structure Store.Follows (c : Context) (s s' : Store) : Prop where
  kept : s.resolved ⊆ s'.resolved
  declared : ∀ name ∈ s'.resolved, name ∈ s.resolved ∨ name ∈ c.aliases.map (·.1)

/-- No alias of a list is hidden. -/
def Relocation.Sees (v : Relocation) (names : List String) : Prop := ∀ name ∈ names, name ∉ v.hidden

/-- Two runs of which the second repeats the first in a store that holds the store of the first. -/
structure Moved (v : Relocation) (c : Context) {α β : Type} (r : α → β) (x : Infer α)
    (y : Infer β) : Prop where
  follows : ∀ s : Store, s.Follows c (x.exec c s).2
  moves : v.Sees c.resolvingAliases → ∀ {s s' : Store} {a : α} {s₁ : Store}, Embeds v s s' → x.exec c s = (.ok a, s₁) →
    v.Sees s₁.resolved → ∃ s₁', y.exec (c.rename v.place) s' = (.ok (r a), s₁') ∧ Embeds v s₁ s₁'

/-! ## How moved runs are put together -/

section

variable {v : Relocation} {c : Context} {α α' β β' γ : Type}

lemma Store.Follows.refl (c : Context) (s : Store) : s.Follows c s :=
  ⟨List.Subset.refl _, fun _ h => .inl h⟩

lemma Store.Follows.trans {s s₁ s₂ : Store} (h : s.Follows c s₁) (h' : s₁.Follows c s₂) :
    s.Follows c s₂ := by
  refine ⟨List.Subset.trans h.kept h'.kept, fun name hname => ?_⟩
  rcases h'.declared name hname with hfirst | hdeclared
  · exact h.declared name hfirst
  · exact .inr hdeclared

lemma moved_pure {r : α → β} {a : α} {b : β} (h : r a = b) : Moved v c r (pure a) (pure b) where
  follows s := .refl c s
  moves _ s s' a' s₁ hs hx _ := by
    cases hx
    exact ⟨s', by rw [exec_pure, h], hs⟩

lemma moved_throw {r : α → β} (e e' : Failure) : Moved v c r (throw e) (throw e') where
  follows s := .refl c s
  moves _ _ _ _ _ _ hx _ := by cases hx

lemma moved_ofNumbers (n : Except Numeral.NotANumber α) :
    Moved v c id (Infer.ofNumbers n) (Infer.ofNumbers n) := by
  cases n with
  | ok a => exact moved_pure rfl
  | error e => exact moved_throw _ _

/-- Two runs, one after the other. -/
theorem Moved.bind {r : α → α'} {r' : β → β'} {x : Infer α} {y : Infer α'} {f : α → Infer β}
    {g : α' → Infer β'} (hx : Moved v c r x y) (hf : ∀ a, Moved v c r' (f a) (g (r a))) :
    Moved v c r' (x >>= f) (y >>= g) where
  follows s := by
    have hfirst := hx.follows s
    rcases hout : x.exec c s with ⟨err | a, s₁⟩
    · rw [exec_bind_error hout]
      rwa [hout] at hfirst
    · rw [exec_bind_ok hout]
      rw [hout] at hfirst
      exact hfirst.trans ((hf a).follows s₁)
  moves hc s s' b s₂ hs hrun hsees := by
    obtain ⟨a, s₁, hfirst, hlast⟩ := exec_bind_eq_ok.1 hrun
    -- What the first run resolved is still resolved in the end, so it is not hidden.
    have hkept : s₁.resolved ⊆ s₂.resolved := by
      have hfollows := ((hf a).follows s₁).kept
      rwa [hlast] at hfollows
    obtain ⟨s₁', hy, hs₁⟩ := hx.moves hc hs hfirst fun name hname => hsees name (hkept hname)
    obtain ⟨s₂', hg, hs₂⟩ := (hf a).moves hc hs₁ hlast hsees
    exact ⟨s₂', by rw [exec_bind_ok hy, hg], hs₂⟩

/-- A run for each item of a list. -/
lemma moved_mapM {p : α → α'} {r : β → β'} {f : α → Infer β} {g : α' → Infer β'} {l : List α}
    (h : ∀ a ∈ l, Moved v c r (f a) (g (p a))) :
    Moved v c (List.map r) (l.mapM f) ((l.map p).mapM g) := by
  induction l with
  | nil =>
    simp only [List.map_nil, List.mapM_nil]
    exact moved_pure rfl
  | cons a l ih =>
    have hrest := ih fun b hb => h b (List.mem_cons_of_mem _ hb)
    simp only [List.map_cons, List.mapM_cons]
    exact (h a List.mem_cons_self).bind fun b => hrest.bind fun bs => moved_pure rfl

/-- A run for each item of a list that has no types in it. -/
lemma moved_mapM_same {r : β → β'} {f : α → Infer β} {g : α → Infer β'} {l : List α}
    (h : ∀ a ∈ l, Moved v c r (f a) (g a)) : Moved v c (List.map r) (l.mapM f) (l.mapM g) := by
  have hmap := moved_mapM (p := id) h
  rwa [List.map_id] at hmap

/-- A test of all items of a list. -/
lemma moved_filterM {p : α → α'} {f : α → Infer Bool} {g : α' → Infer Bool} {l : List α}
    (h : ∀ a ∈ l, Moved v c id (f a) (g (p a))) :
    Moved v c (List.map p) (l.filterM f) ((l.map p).filterM g) := by
  have hfrom (found : List α) : Moved v c (List.map p) (l.filterAuxM f found)
      ((l.map p).filterAuxM g (found.map p)) := by
    induction l generalizing found with
    | nil => exact moved_pure rfl
    | cons a l ih =>
      simp only [List.map_cons, List.filterAuxM]
      refine (h a List.mem_cons_self).bind fun b => ?_
      have hrest := ih (fun b hb => h b (List.mem_cons_of_mem _ hb)) (cond b (a :: found) found)
      cases b <;> exact hrest
  exact (hfrom []).bind fun found => moved_pure List.map_reverse

/-- A test of the items of a list, until one passes. -/
lemma moved_anyM {p : α → α'} {f : α → Infer Bool} {g : α' → Infer Bool} {l : List α}
    (h : ∀ a ∈ l, Moved v c id (f a) (g (p a))) :
    Moved v c id (l.anyM f) ((l.map p).anyM g) := by
  induction l with
  | nil => exact moved_pure rfl
  | cons a l ih =>
    simp only [List.map_cons, List.anyM]
    refine (h a List.mem_cons_self).bind fun b => ?_
    cases b with
    | false => exact ih fun b hb => h b (List.mem_cons_of_mem _ hb)
    | true => exact moved_pure rfl

/-- A run that reads its context. -/
lemma Moved.bind_read {r : α → β} {f : Context → Infer α} {g : Context → Infer β}
    (h : Moved v c r (f c) (g (c.rename v.place))) :
    Moved v c r (read >>= f) (read >>= g) where
  follows s := by
    rw [exec_bind_ok exec_read]
    exact h.follows s
  moves hc s s' a s₁ hs hx hsees := by
    rw [exec_bind_ok exec_read] at hx ⊢
    exact h.moves hc hs hx hsees

/-- A run in a context with the same aliases, of which the same are being resolved. -/
lemma Moved.changed {r : α → β} {x : Infer α} {y : Infer β} {f g : Context → Context}
    (h : Moved v (f c) r x y) (hrename : g (c.rename v.place) = (f c).rename v.place)
    (haliases : (f c).aliases = c.aliases)
    (hresolving : (f c).resolvingAliases = c.resolvingAliases) :
    Moved v c r (withReader f x) (withReader g y) where
  follows s := by
    have hfollows := h.follows s
    exact ⟨hfollows.kept, haliases ▸ hfollows.declared⟩
  moves hc s s' a s₁ hs hx hsees := by
    rw [exec_withReader] at hx ⊢
    rw [hrename]
    exact h.moves (hresolving ▸ hc) hs hx hsees

end

/-! ## Steps that use the store -/

section

variable {v : Relocation} {c : Context} {α β : Type} {s s' : Store}

lemma Embeds.size (h : Embeds v s s') : v.place s.objects.size = s'.objects.size := h.next 0

/-- One more object in both stores. -/
lemma Embeds.push (h : Embeds v s s') (o : ObjectInfo) :
    Embeds v { s with objects := s.objects.push o }
      { s' with objects := s'.objects.push (o.rename v.place) } where
  next i := by
    have hnext := h.next (1 + i)
    simp only [Array.size_push]
    rw [Nat.add_assoc, hnext, Nat.add_assoc]
  objects id := by
    simp only [Array.getElem?_push]
    by_cases hid : id = s.objects.size
    · rw [hid, h.size]
      simp
    · have hplace : v.place id ≠ s'.objects.size := by
        rw [← h.size]
        exact fun heq => hid (v.injective heq)
      rw [if_neg hid, if_neg hplace, h.objects]
  aliases := h.aliases

/-- The same change of one object in both stores. -/
lemma Embeds.modify (h : Embeds v s s') (id : Nat) {f g : ObjectInfo → ObjectInfo}
    (hfg : ∀ o, g (o.rename v.place) = (f o).rename v.place) :
    Embeds v { s with objects := s.objects.modify id f }
      { s' with objects := s'.objects.modify (v.place id) g } where
  next i := by
    simp only [Array.size_modify]
    exact h.next i
  objects i := by
    simp only [Array.getElem?_modify, h.objects]
    by_cases hid : id = i
    · subst hid
      rw [if_pos rfl, if_pos rfl, Option.map_map, Option.map_map]
      exact congrArg (Option.map · _) (funext hfg)
    · rw [if_neg hid, if_neg fun heq => hid (v.injective heq)]
  aliases := h.aliases

/-- The same alias resolved in both stores. -/
lemma Embeds.resolve (h : Embeds v s s') (name : String) (t : Ty) :
    Embeds v { s with aliases := (name, t) :: s.aliases }
      { s' with aliases := (name, t.rename v.place) :: s'.aliases } where
  next := h.next
  objects := h.objects
  aliases name' hname' := by
    simp only [List.lookup_cons]
    by_cases heq : name' == name
    · simp [heq]
    · simp only [heq]
      exact h.aliases name' hname'

/-- A step that leaves the aliases as they are. -/
lemma moved_of_step {r : α → β} {x : Infer α} {y : Infer β} {f : Store → α × Store}
    {g : Store → β × Store} (hx : ∀ c s, x.exec c s = (.ok (f s).1, (f s).2))
    (hy : ∀ c s, y.exec c s = (.ok (g s).1, (g s).2)) (haliases : ∀ s, (f s).2.aliases = s.aliases)
    (h : ∀ s s', Embeds v s s' → (g s').1 = r (f s).1 ∧ Embeds v (f s).2 (g s').2) :
    Moved v c r x y where
  follows s := by
    rw [hx]
    have hresolved : (f s).2.resolved = s.resolved := congrArg (List.map _) (haliases s)
    exact ⟨hresolved ▸ List.Subset.refl _, fun name hname => .inl (hresolved ▸ hname)⟩
  moves _ s s' a s₁ hs hrun _ := by
    rw [hx] at hrun
    cases hrun
    obtain ⟨hanswer, hstore⟩ := h s s' hs
    exact ⟨(g s').2, by rw [hy, hanswer], hstore⟩

lemma moved_newObject (name : Option String) (shape : Shape) :
    Moved v c (Ty.rename v.place) (newObject name shape)
      (newObject name (shape.rename v.place)) := by
  refine moved_of_step
    (f := fun s => (.object s.objects.size, { s with objects := s.objects.push ⟨name, shape⟩ }))
    (g := fun s => (.object s.objects.size,
      { s with objects := s.objects.push ⟨name, shape.rename v.place⟩ }))
    (fun _ _ => rfl) (fun _ _ => rfl) (fun _ => rfl) fun s s' hs => ⟨?_, hs.push ⟨name, shape⟩⟩
  rw [Ty.rename, hs.size]

lemma moved_objectInfo (id : Nat) :
    Moved v c (ObjectInfo.rename v.place) (objectInfo id) (objectInfo (v.place id)) := by
  refine moved_of_step (f := fun s => ((s.objects[id]?).getD ⟨none, .known []⟩, s))
    (g := fun s => ((s.objects[v.place id]?).getD ⟨none, .known []⟩, s))
    (fun _ _ => rfl) (fun _ _ => rfl) (fun _ => rfl) fun s s' hs => ⟨?_, hs⟩
  simp only [hs.objects]
  cases s.objects[id]? <;> rfl

lemma moved_modifyObject (id : Nat) {f g : ObjectInfo → ObjectInfo}
    (hfg : ∀ o, g (o.rename v.place) = (f o).rename v.place) :
    Moved v c (fun u => u) (modifyObject id f) (modifyObject (v.place id) g) :=
  moved_of_step (f := fun s => ((), { s with objects := s.objects.modify id f }))
    (g := fun s => ((), { s with objects := s.objects.modify (v.place id) g }))
    (fun _ _ => rfl) (fun _ _ => rfl) (fun _ => rfl) fun _ _ hs => ⟨rfl, hs.modify id hfg⟩

end

end RouteScribe.Typing
