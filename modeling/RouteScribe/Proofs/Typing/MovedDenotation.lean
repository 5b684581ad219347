import RouteScribe.Proofs.Typing.Relocation

/-!
# Type expressions in another store

The functions that say what type expressions denote, one by one: if the queries they ask are carried
over to a store that holds the present one (`Carries`), so are they.  Unions are made alike because
places tell objects apart as well as the identities they stand for, and an object is displayed inside
itself in both stores or in neither.  The statements about aliases are the only ones that use that
none is hidden (`moves_newAlias`, `moved_aliasType`).
-/

namespace RouteScribe.Typing

open Infer
open Source (Cursor)

/-- Queries are carried over, in every context. -/
structure Carries (v : Relocation) (ask : Answers) : Prop where
  typeOf : ∀ c e, Moved v c (Ty.rename v.place) (ask _ (.typeOf e)) (ask _ (.typeOf e))
  denoted : ∀ c e, Moved v c (Ty.rename v.place) (ask _ (.denoted e)) (ask _ (.denoted e))
  properties : ∀ c t, Moved v c (Option.map (List.map (renameProperty v.place)))
    (ask _ (.properties t)) (ask _ (.properties (t.rename v.place)))
  display : ∀ c t, Moved v c id (ask _ (.display t)) (ask _ (.display (t.rename v.place)))

section

variable {v : Relocation} {c : Context} {ask : Answers}

/-! ## Unions -/

/-- The key of a renamed member of a union. -/
def UnionKey.rename (ρ : Nat → Nat) : UnionKey → UnionKey
  | .object id => .object (ρ id)
  | .display text => .display text

lemma UnionKey.rename_injective {ρ : Nat → Nat} (h : Function.Injective ρ) :
    Function.Injective (UnionKey.rename ρ) := by
  intro k k' heq
  cases k with
  | object id =>
    cases k' with
    | object id' => exact congrArg UnionKey.object (h (UnionKey.object.inj heq))
    | display _ => cases heq
  | display text =>
    cases k' with
    | object _ => cases heq
    | display text' => exact congrArg UnionKey.display (UnionKey.display.inj heq)

/-- Which values are the first of their keys does not depend on how keys are named. -/
lemma firstOfKeys_map {κ κ' α β : Type} [BEq κ] [LawfulBEq κ] [BEq κ'] [LawfulBEq κ'] {k : κ → κ'}
    (hk : Function.Injective k) (r : α → β) (seen : List κ) (l : List (κ × α)) :
    firstOfKeys (seen.map k) (l.map (Prod.map k r)) = (firstOfKeys seen l).map r := by
  induction l generalizing seen with
  | nil => rfl
  | cons a l ih =>
    obtain ⟨key, a⟩ := a
    have hseen : (seen.map k).contains (k key) = seen.contains key := by
      rw [Bool.eq_iff_iff, List.contains_iff_mem, List.contains_iff_mem, List.mem_map_of_injective hk]
    simp only [List.map_cons, Prod.map_apply, firstOfKeys, hseen]
    split
    · exact ih seen
    · rw [← List.map_cons, ih, List.map_cons]

variable (h : Carries v ask)

include h

lemma moved_propertiesOf (t : Ty) : Moved v c (List.map (renameProperty v.place))
    (propertiesOf ask t) (propertiesOf ask (t.rename v.place)) :=
  (h.properties c t).bind fun ps => moved_pure (by cases ps <;> rfl)

lemma moved_unionKey (t : Ty) :
    Moved v c (UnionKey.rename v.place) (unionKey ask t) (unionKey ask (t.rename v.place)) := by
  cases t
  case object id => exact moved_pure rfl
  all_goals exact (h.display c _).bind fun _ => moved_pure rfl

lemma moved_makeUnion (ts : List Ty) : Moved v c (Ty.rename v.place) (makeUnion ask ts)
    (makeUnion ask (ts.map (Ty.rename v.place))) := by
  have hmembers : (ts.map (Ty.rename v.place)).flatMap Ty.alternatives =
      (ts.flatMap Ty.alternatives).map (Ty.rename v.place) := by
    simp only [List.flatMap_map, Ty.alternatives_rename, List.map_flatMap]
  have hkeyed (t : Ty) : Moved v c (Prod.map (UnionKey.rename v.place) (Ty.rename v.place))
      (do return (← unionKey ask t, t))
      (do return (← unionKey ask (t.rename v.place), t.rename v.place)) :=
    (moved_unionKey h t).bind fun _ => moved_pure rfl
  unfold makeUnion
  rw [hmembers]
  refine (moved_mapM fun t _ => hkeyed t).bind fun keyed => moved_pure ?_
  rw [← Ty.ofAlternatives_map_rename,
    ← firstOfKeys_map (UnionKey.rename_injective v.injective) (Ty.rename v.place) [], List.map_nil]

lemma moved_widen (t : Ty) :
    Moved v c (Ty.rename v.place) (widen ask t) (widen ask (t.rename v.place)) := by
  cases t
  case union members =>
    have hunion := moved_makeUnion (c := c) h (members.map Ty.widenLiteral)
    simp only [widen, Ty.rename, Ty.renameAll_eq_map, List.map_map] at hunion ⊢
    simpa only [Function.comp_def, Ty.widenLiteral_rename] using hunion
  all_goals exact moved_pure rfl

lemma moved_filterUnion {test : Ty → Bool} (htest : Ty.Blind test) (t : Ty) :
    Moved v c (Ty.rename v.place) (filterUnion ask test t)
      (filterUnion ask test (t.rename v.place)) := by
  cases t
  case union members =>
    have hunion := moved_makeUnion (c := c) h (members.filter test)
    have hfilter : (members.map (Ty.rename v.place)).filter test =
        (members.filter test).map (Ty.rename v.place) := by
      rw [List.filter_map, Function.comp_def, funext (htest v.place)]
    simp only [filterUnion, Ty.rename, Ty.renameAll_eq_map, hfilter]
    exact hunion
  all_goals exact moved_pure rfl

lemma moved_stripNullish (t : Ty) :
    Moved v c (Ty.rename v.place) (stripNullish ask t) (stripNullish ask (t.rename v.place)) :=
  moved_filterUnion h (fun ρ t => by rw [Ty.isNullish_rename]) t

lemma moved_withUndefined (t : Ty) :
    Moved v c (Ty.rename v.place) (withUndefined ask t) (withUndefined ask (t.rename v.place)) :=
  moved_makeUnion h [t, .undefined]

lemma moved_presentType (p : Property) :
    Moved v c (Ty.rename v.place) (presentType ask p)
      (presentType ask (renameProperty v.place p)) := by
  unfold presentType
  by_cases hp : p.optional
  · simp only [renameProperty, hp, if_true]
    exact moved_filterUnion h (fun ρ t => by rw [Ty.isUndefined_rename]) p.type
  · simp only [renameProperty, hp]
    exact moved_pure rfl

lemma moved_elementType (t : Ty) : Moved v c (Option.map (Ty.rename v.place)) (elementType? ask t)
    (elementType? ask (t.rename v.place)) := by
  match t with
  | .tuple [] => exact moved_pure rfl
  | .tuple (first :: rest) =>
    have hunion := moved_makeUnion (c := c) h (first :: rest)
    simp only [Ty.rename, Ty.renameAll_eq_map, List.map_cons] at hunion ⊢
    exact hunion.bind fun _ => moved_pure rfl
  | .array _ => exact moved_pure rfl
  | .primitive _ | .literal _ | .enumMember _ _ _ | .union _ | .map _ | .object _ | .promise _
  | .named _ _ | .function _ => exact moved_pure rfl

/-! ## Display -/

lemma moved_displayProperties (ps : List Property) : Moved v c id (displayProperties ask ps)
    (displayProperties ask (ps.map (renameProperty v.place))) := by
  refine (moved_mapM (r := id) fun p _ => ?_).bind fun _ => moved_pure ?_
  · refine (moved_presentType h p).bind fun t => (h.display c t).bind fun _ => moved_pure rfl
  · simp only [List.map_id, id]

lemma moved_displayAll (ts : List Ty) : Moved v c id (ts.mapM fun t => ask _ (.display t))
    ((ts.map (Ty.rename v.place)).mapM fun t => ask _ (.display t)) := by
  have hall : Moved v c (List.map id) (ts.mapM fun t => ask _ (.display t))
      ((ts.map (Ty.rename v.place)).mapM fun t => ask _ (.display t)) :=
    moved_mapM fun t _ => h.display c t
  rwa [show List.map (id : String → String) = id from funext List.map_id] at hall

/-- An object is displayed inside itself in both stores or in neither. -/
lemma moved_displayObject (id : Nat) :
    Moved v c (fun text => text) (displayText ask (.object id))
      (displayText ask (.object (v.place id))) := by
  have hinside : (c.displaying.map v.place).contains (v.place id) = c.displaying.contains id := by
    rw [Bool.eq_iff_iff, List.contains_iff_mem, List.contains_iff_mem,
      List.mem_map_of_injective v.injective]
  refine (moved_objectInfo id).bind fun o => ?_
  rw [show (o.rename v.place).name = o.name from rfl]
  rcases o.name with - | name
  · refine Moved.bind_read ?_
    rw [show (c.rename v.place).displaying = c.displaying.map v.place from rfl, hinside]
    by_cases hid : c.displaying.contains id
    · simp only [hid, if_true]
      exact moved_pure rfl
    · simp only [hid]
      refine Moved.changed (f := Context.inDisplay id) (g := Context.inDisplay (v.place id)) ?_ rfl
        rfl rfl
      exact (moved_propertiesOf h (.object id)).bind fun ps => moved_displayProperties h ps
  · exact moved_pure rfl

omit h in
lemma moved_numberText (n : Numeral) : Moved v c id (numberText n) (numberText n) := by
  refine Moved.bind_read ?_
  rw [show (c.rename v.place).limited = c.limited from rfl]
  split
  · exact moved_throw _ _
  · exact moved_pure rfl

lemma moved_displayText (t : Ty) :
    Moved v c id (displayText ask t) (displayText ask (t.rename v.place)) := by
  match t with
  | .primitive _ | .literal (.string _) | .literal (.boolean _) | .enumMember _ _ _ | .function _
  | .named _ [] => exact moved_pure rfl
  | .literal (.number n) => exact moved_numberText n
  | .union members =>
    simp only [Ty.rename, Ty.renameAll_eq_map, displayText]
    exact (moved_displayAll h members).bind fun _ => moved_pure rfl
  | .array element =>
    have hunion : (element.rename v.place).unionMembers?.isSome = element.unionMembers?.isSome := by
      rw [Ty.unionMembers?_rename, Option.isSome_map]
    refine (h.display c element).bind fun text => moved_pure ?_
    rw [hunion]
    rfl
  | .tuple elements =>
    simp only [Ty.rename, Ty.renameAll_eq_map, displayText]
    exact (moved_displayAll h elements).bind fun _ => moved_pure rfl
  | .map value => exact (h.display c value).bind fun _ => moved_pure rfl
  | .promise inner => exact (h.display c inner).bind fun _ => moved_pure rfl
  | .named name (arg :: args) =>
    have hall := moved_displayAll (c := c) h (arg :: args)
    simp only [Ty.rename, Ty.renameAll_eq_map, List.map_cons, displayText] at hall ⊢
    exact hall.bind fun _ => moved_pure rfl
  | .object id => exact moved_displayObject h id

/-! ## Members of object types -/

lemma moved_denotedBy (e : Option Cursor) :
    Moved v c (Ty.rename v.place) (denotedBy ask e) (denotedBy ask e) := by
  cases e with
  | none => exact moved_pure rfl
  | some e => exact h.denoted c e

lemma moved_denotedAll (es : List Cursor) :
    Moved v c (List.map (Ty.rename v.place)) (denotedAll ask es) (denotedAll ask es) :=
  moved_mapM_same fun e _ => h.denoted c e

lemma moved_typeArguments (e : Cursor) :
    Moved v c (List.map (Ty.rename v.place)) (typeArguments ask e) (typeArguments ask e) := by
  unfold typeArguments
  split
  · exact moved_denotedAll h _
  · exact moved_pure rfl

lemma moved_declaredProperties (body : Cursor) : Moved v c (List.map (renameProperty v.place))
    (declaredProperties ask body) (declaredProperties ask body) := by
  refine (moved_mapM_same (r := List.map (renameProperty v.place)) fun m _ => ?_).bind
    fun properties => moved_pure List.map_flatten
  rcases (m.child? .name).bind Cursor.memberKey? with - | name
  · exact moved_pure rfl
  · -- The type may be undefined as well if the member is optional.
    have hlast (type : Ty) : Moved v c (List.map (renameProperty v.place))
        (do
          let type ← if m.node.hasToken "?" then withUndefined ask type else pure type
          return [{ name, optional := m.node.hasToken "?", type : Property }])
        (do
          let type ← if m.node.hasToken "?" then withUndefined ask (type.rename v.place)
            else pure (type.rename v.place)
          return [{ name, optional := m.node.hasToken "?", type : Property }]) := by
      split
      · exact (moved_withUndefined h type).bind fun _ => moved_pure rfl
      · exact (moved_pure rfl).bind fun _ => moved_pure rfl
    dsimp only
    split
    · exact (moved_pure (r := Ty.rename v.place) rfl).bind hlast
    · exact (moved_denotedBy h _).bind hlast

lemma moved_indexedValue? (body : Cursor) : Moved v c (Option.map (Ty.rename v.place))
    (indexedValue? ask body) (indexedValue? ask body) := by
  unfold indexedValue?
  split
  · exact moved_pure rfl
  · exact (moved_denotedBy h _).bind fun _ => moved_pure rfl

lemma moved_objectOf (body : Cursor) (name : Option String) :
    Moved v c (Ty.rename v.place) (objectOf ask body name) (objectOf ask body name) := by
  unfold objectOf
  extract_lets named last
  have hlast (value : Option Ty) : Moved v c (Ty.rename v.place) (last value)
      (last (value.map (Ty.rename v.place))) := by
    cases value with
    | none => exact moved_newObject name (.members body)
    | some value => exact moved_pure rfl
  split
  · exact (moved_pure (r := Option.map (Ty.rename v.place)) rfl).bind hlast
  · exact (moved_indexedValue? h body).bind hlast

omit h in
lemma put_map {α β : Type} (r : α → β) (name : String) (a : α) (table : List (String × α)) :
    Table.put name (r a) (table.map (Prod.map id r)) = (Table.put name a table).map (Prod.map id r) := by
  induction table with
  | nil => rfl
  | cons entry table ih =>
    simp only [List.map_cons, Prod.map, id, Table.put]
    split
    · rfl
    · simp only [List.map_cons, Prod.map, id] at ih ⊢
      rw [← ih]

omit h in
lemma putAll_map {α β : Type} (r : α → β) (table entries : List (String × α)) :
    Table.putAll (table.map (Prod.map id r)) (entries.map (Prod.map id r)) =
      (Table.putAll table entries).map (Prod.map id r) := by
  induction entries generalizing table with
  | nil => rfl
  | cons entry entries ih =>
    have hput := put_map r entry.1 entry.2 table
    calc Table.putAll (table.map (Prod.map id r)) ((entry :: entries).map (Prod.map id r))
        = Table.putAll (Table.put entry.1 (r entry.2) (table.map (Prod.map id r)))
            (entries.map (Prod.map id r)) := rfl
      _ = (Table.putAll (Table.put entry.1 entry.2 table) entries).map (Prod.map id r) := by
          rw [hput, ih]

omit h in
/-- Properties are merged by their names. -/
lemma mergeProperties_map (ρ : Nat → Nat) (ps : List Property) :
    mergeProperties (ps.map (renameProperty ρ)) = (mergeProperties ps).map (renameProperty ρ) := by
  have hall := putAll_map (renameProperty ρ) [] (ps.map fun p => (p.name, p))
  have hentries : (ps.map (renameProperty ρ)).map (fun p => (p.name, p)) =
      (ps.map fun p => (p.name, p)).map (Prod.map id (renameProperty ρ)) := by
    simp only [List.map_map]
    rfl
  unfold mergeProperties Table.ofList
  rw [hentries, ← List.map_nil (f := Prod.map id (renameProperty ρ)), hall]
  simp only [List.map_map]
  rfl

lemma moved_interfaceProperties (e : Cursor) : Moved v c (List.map (renameProperty v.place))
    (interfaceProperties ask e) (interfaceProperties ask e) := by
  have hlast (inherited : List (List Property)) (own : List Property) :
      Moved v c (List.map (renameProperty v.place))
        (pure (mergeProperties (inherited.flatten ++ own)))
        (pure (mergeProperties ((inherited.map (List.map (renameProperty v.place))).flatten ++
          own.map (renameProperty v.place)))) := by
    refine moved_pure ?_
    rw [← mergeProperties_map, List.map_append, List.map_flatten]
  refine (moved_mapM_same fun base _ => (h.denoted c base).bind fun t =>
    moved_propertiesOf h t).bind fun inherited => ?_
  split
  · exact (moved_declaredProperties h _).bind fun own => hlast inherited own
  · exact (moved_pure (r := List.map (renameProperty v.place)) rfl).bind fun own => hlast inherited own

lemma moved_mapProperty (how : Mapping) (p : Property) : Moved v c (renameProperty v.place)
    (mapProperty ask how p) (mapProperty ask how (renameProperty v.place p)) := by
  cases how with
  | optional => exact (moved_withUndefined h p.type).bind fun _ => moved_pure rfl
  | required => exact (moved_presentType h p).bind fun _ => moved_pure rfl
  | unchanged => exact moved_pure rfl

lemma moved_shapeProperties (shape : Shape) : Moved v c (List.map (renameProperty v.place))
    (shapeProperties ask shape) (shapeProperties ask (shape.rename v.place)) := by
  cases shape with
  | known properties => exact moved_pure rfl
  | interface e => exact moved_interfaceProperties h e
  | members body => exact moved_declaredProperties h body
  | mapped how source =>
    exact (moved_propertiesOf h source).bind fun ps => moved_mapM fun p _ => moved_mapProperty h how p
  | merged parts =>
    refine (moved_mapM fun t _ => moved_propertiesOf h t).bind fun all => moved_pure ?_
    rw [← mergeProperties_map, List.map_flatten]

/-- Properties are worked out once in both stores. -/
lemma moved_objectProperties (t : Ty) : Moved v c (Option.map (List.map (renameProperty v.place)))
    (objectProperties ask t) (objectProperties ask (t.rename v.place)) := by
  cases t
  case object id =>
    refine (moved_objectInfo id).bind fun o => ?_
    have hfinish (shape : Shape) : Moved v c (Option.map (List.map (renameProperty v.place)))
        (do
          modifyObject id fun o => { o with shape := .known [] }
          let properties ← shapeProperties ask shape
          modifyObject id fun o => { o with shape := .known properties }
          return some properties)
        (do
          modifyObject (v.place id) fun o => { o with shape := .known [] }
          let properties ← shapeProperties ask (shape.rename v.place)
          modifyObject (v.place id) fun o => { o with shape := .known properties }
          return some properties) := by
      have hknown (ps : List Property) : Moved v c (fun u => u)
          (modifyObject id fun o => { o with shape := .known ps })
          (modifyObject (v.place id) fun o =>
            { o with shape := .known (ps.map (renameProperty v.place)) }) :=
        moved_modifyObject id fun _ => rfl
      refine (hknown []).bind fun _ => (moved_shapeProperties h shape).bind fun ps => ?_
      exact (hknown ps).bind fun _ => moved_pure rfl
    obtain ⟨name, shape⟩ := o
    cases shape with
    | known properties => exact moved_pure rfl
    | _ => exact hfinish _
  all_goals exact moved_pure rfl

/-! ## Aliases -/

lemma moved_declaredType (name : String) (e : Cursor) :
    Moved v c (Ty.rename v.place) (declaredType ask name e) (declaredType ask name e) := by
  unfold declaredType
  split
  · exact moved_newObject (some name) (.interface e)
  · split
    · split
      · exact moved_objectOf h _ _
      · exact h.denoted c _
    · exact moved_pure rfl

omit h in
/-- The alias is resolved in both stores. -/
lemma moved_settleAlias {name : String} (hname : name ∈ c.aliases.map (·.1)) (t : Ty) :
    Moved v c (Ty.rename v.place) (settleAlias name t) (settleAlias name (t.rename v.place)) := by
  have hresolve (t : Ty) : Moved v c (fun u => u)
      (modify fun s : Store => { s with aliases := (name, t) :: s.aliases })
      (modify fun s : Store => { s with aliases := (name, t.rename v.place) :: s.aliases }) := by
    refine ⟨fun s => ⟨?_, fun n hn => ?_⟩, fun _ s s' a s₁ hs hx _ => ?_⟩
    · exact List.subset_cons_self _ _
    · rcases List.mem_cons.1 hn with rfl | hn
      · exact .inr hname
      · exact .inl hn
    · cases hx
      exact ⟨_, rfl, hs.resolve name t⟩
  cases t
  case object id =>
    refine Moved.bind (r := fun u => u) ?_ fun _ => (hresolve (.object id)).bind fun _ => moved_pure rfl
    exact moved_modifyObject id fun _ => rfl
  all_goals exact (hresolve _).bind fun _ => moved_pure rfl

section

variable {name : String} {e : Cursor} (hname : name ∈ c.aliases.map (·.1))
  (hdeclared : Moved v (c.inAlias name) (Ty.rename v.place) (declaredType ask name e)
    (declaredType ask name e))

include hname hdeclared

omit h in
/-- What an alias adds to the resolved aliases is what its declaration adds, and the alias. -/
lemma follows_aliasType (s : Store) : s.Follows c ((aliasType ask name e).exec c s).2 := by
  rcases hlookup : s.aliases.lookup name with - | t
  case some =>
    rw [exec_aliasType_resolved ask hlookup]
    exact .refl c s
  by_cases hopen : name ∈ c.resolvingAliases
  case pos =>
    rw [exec_aliasType_open ask hlookup hopen]
    exact .refl c s
  have hfirst := hdeclared.follows s
  rw [exec_aliasType_new ask hlookup hopen]
  rcases hout : (declaredType ask name e).exec (c.inAlias name) s with ⟨err | t, s₁⟩
  · rw [hout] at hfirst
    rw [exec_bind_error (x := withReader (Context.inAlias name) (declaredType ask name e)) hout]
    exact ⟨hfirst.kept, hfirst.declared⟩
  · rw [hout] at hfirst
    rw [exec_bind_ok (x := withReader (Context.inAlias name) (declaredType ask name e)) hout]
    exact .trans ⟨hfirst.kept, hfirst.declared⟩ ((moved_settleAlias (v := v) hname t).follows s₁)

omit h in
/-- An alias that is new to the first run is new to the second.  It cannot be a hidden one, since it is
resolved in the end. -/
lemma moves_newAlias {s s' s₁ : Store} {t : Ty} (hc : v.Sees c.resolvingAliases) (hs : Embeds v s s')
    (hlookup : s.aliases.lookup name = none) (hopen : name ∉ c.resolvingAliases)
    (hx : (aliasType ask name e).exec c s = (.ok t, s₁)) (hsees : v.Sees s₁.resolved) :
    ∃ s₁', (aliasType ask name e).exec (c.rename v.place) s' = (.ok (t.rename v.place), s₁') ∧
      Embeds v s₁ s₁' := by
  rw [exec_aliasType_new ask hlookup hopen] at hx
  obtain ⟨u, s₂, hdeclares, hsettles⟩ := exec_bind_eq_ok.1 hx
  have hresolved : s₁.aliases = (name, u) :: s₂.aliases := by
    have haliases := aliases_settleAlias name u c s₂
    rwa [hsettles] at haliases
  have hsees' : v.Sees (name :: s₂.resolved) := by
    rw [Store.resolved, hresolved] at hsees
    exact hsees
  have hvisible : name ∉ v.hidden := hsees' name List.mem_cons_self
  have hin : v.Sees (c.inAlias name).resolvingAliases := by
    intro n hn
    rcases List.mem_cons.1 hn with rfl | hn
    · exact hvisible
    · exact hc n hn
  obtain ⟨s₂', hdeclares', hs₂⟩ :=
    hdeclared.moves hin hs hdeclares fun n hn => hsees' n (List.mem_cons_of_mem _ hn)
  obtain ⟨s₁', hsettles', hs₁⟩ := (moved_settleAlias hname u).moves hc hs₂ hsettles hsees
  have hlookup' : s'.aliases.lookup name = none := by
    rw [hs.aliases name hvisible, hlookup, Option.map_none]
  have hin' : (withReader (Context.inAlias name) (declaredType ask name e)).exec
      (c.rename v.place) s' = (.ok (u.rename v.place), s₂') := hdeclares'
  refine ⟨s₁', ?_, hs₁⟩
  rw [exec_aliasType_new (c := c.rename v.place) ask hlookup' hopen, exec_bind_ok hin']
  exact hsettles'

end

/-- An alias that is not hidden is resolved in both stores, being resolved in both runs, or resolved
now in both. -/
lemma moved_aliasType {name : String} (hname : name ∈ c.aliases.map (·.1)) (e : Cursor) :
    Moved v c (Ty.rename v.place) (aliasType ask name e) (aliasType ask name e) := by
  have hdeclared : Moved v (c.inAlias name) (Ty.rename v.place) (declaredType ask name e)
      (declaredType ask name e) := moved_declaredType h name e
  refine ⟨follows_aliasType hname hdeclared, ?_⟩
  intro hc s s' t s₁ hs hx hsees
  rcases hlookup : s.aliases.lookup name with - | u
  · by_cases hopen : name ∈ c.resolvingAliases
    · have hlookup' : s'.aliases.lookup name = none := by
        rw [hs.aliases name (hc name hopen), hlookup, Option.map_none]
      rw [exec_aliasType_open ask hlookup hopen] at hx
      cases hx
      exact ⟨s', exec_aliasType_open ask hlookup' hopen, hs⟩
    · exact moves_newAlias hname hdeclared hc hs hlookup hopen hx hsees
  · have hmem : name ∈ s.resolved := List.mem_map_of_mem (f := (·.1)) (mem_of_lookup hlookup)
    rw [exec_aliasType_resolved ask hlookup] at hx
    cases hx
    refine ⟨s', exec_aliasType_resolved ask ?_, hs⟩
    rw [hs.aliases name (hsees name hmem), hlookup, Option.map_some]

/-! ## Type expressions -/

omit h in
lemma moved_literalType (e : Option Cursor) :
    Moved v c (Ty.rename v.place) (literalType e) (literalType e) := by
  unfold literalType
  split
  · exact moved_pure rfl
  · split
    all_goals first
      | exact moved_pure rfl
      | refine (moved_ofNumbers _).bind fun value => ?_
    dsimp only [id]
    split <;> exact moved_pure rfl

omit h in
lemma moved_enumTypes (name : String) (e : Cursor) :
    Moved v c (List.map (Ty.rename v.place)) (enumTypes name e) (enumTypes name e) :=
  (moved_ofNumbers _).bind fun members => moved_pure (by rw [List.map_map]; rfl)

omit h in
lemma moved_enumMemberType (e : Cursor) (member : String) :
    Moved v c (Ty.rename v.place) (enumMemberType e member) (enumMemberType e member) := by
  refine (moved_ofNumbers _).bind fun members => ?_
  dsimp only [id]
  split <;> exact moved_pure rfl

lemma moved_namedType (name : String) (args : List Ty) : Moved v c (Ty.rename v.place)
    (namedType ask name args) (namedType ask name (args.map (Ty.rename v.place))) := by
  refine Moved.bind_read ?_
  rw [show (c.rename v.place).aliases = c.aliases from rfl,
    show (c.rename v.place).enums = c.enums from rfl]
  rcases hlookup : c.aliases.lookup name with - | declaration
  · rcases c.enums.lookup name with - | declaration
    · dsimp only
      split
      all_goals first
        | exact moved_pure rfl
        | exact moved_pure (by rw [Ty.rename, Ty.renameAll_eq_map])
    · exact (moved_enumTypes name declaration).bind fun ts => moved_makeUnion h ts
  · exact moved_aliasType h (List.mem_map_of_mem (f := (·.1)) (mem_of_lookup hlookup)) declaration

omit h in
lemma moved_nestedType (e : Cursor) :
    Moved v c (Ty.rename v.place) (nestedType e) (nestedType e) := by
  unfold nestedType
  split
  · refine Moved.bind_read ?_
    rw [show (c.rename v.place).enums = c.enums from rfl]
    split
    · exact moved_enumMemberType _ _
    · exact moved_pure rfl
  · exact moved_pure rfl

omit h in
lemma moved_recordType (key value : Ty) : Moved v c (Ty.rename v.place) (recordType key value)
    (recordType (key.rename v.place) (value.rename v.place)) := by
  have hnames : (key.rename v.place).alternatives.mapM Ty.stringValue? =
      key.alternatives.mapM Ty.stringValue? := by
    rw [Ty.alternatives_rename]
    induction key.alternatives with
    | nil => rfl
    | cons t ts ih => simp only [List.map_cons, List.mapM_cons, Ty.stringValue?_rename, ih]
  unfold recordType
  rw [hnames]
  split
  · rename_i names _
    have hobject := moved_newObject (v := v) (c := c) none
      (.known (names.map fun name => { name, optional := false, type := value }))
    simp only [Shape.rename, List.map_map] at hobject
    exact hobject
  · exact moved_pure rfl

lemma moved_selectedType (keep : Bool) (source keys : Ty) : Moved v c (Ty.rename v.place)
    (selectedType ask keep source keys)
    (selectedType ask keep (source.rename v.place) (keys.rename v.place)) := by
  have hnames : (keys.rename v.place).alternatives.filterMap Ty.stringValue? =
      keys.alternatives.filterMap Ty.stringValue? := by
    simp only [Ty.alternatives_rename, List.filterMap_map, Function.comp_def, Ty.stringValue?_rename]
  unfold selectedType
  rw [hnames]
  refine (moved_propertiesOf h source).bind fun ps => ?_
  rw [List.filter_map]
  exact moved_newObject none (.known _)

/-- The generics that are understood. -/
def understoodGenerics : List String :=
  ["Array", "ReadonlyArray", "Set", "ReadonlySet", "Promise", "Record", "Partial", "Required",
   "Readonly", "NonNullable", "Pick", "Omit"]

omit h in
lemma genericOf_other {name : String} (hname : name ∉ understoodGenerics) (args : List Ty) :
    genericOf ask name args = namedType ask name args := by
  unfold genericOf
  split
  all_goals first
    | rfl
    | exact absurd (by decide) hname

lemma moved_genericOf (name : String) (args : List Ty) : Moved v c (Ty.rename v.place)
    (genericOf ask name args) (genericOf ask name (args.map (Ty.rename v.place))) := by
  by_cases hname : name ∈ understoodGenerics
  · simp only [understoodGenerics, List.mem_cons, List.not_mem_nil, or_false] at hname
    rcases hname with
      rfl | rfl | rfl | rfl | rfl | rfl | rfl | rfl | rfl | rfl | rfl | rfl
    all_goals
      rcases args with - | ⟨t, - | ⟨u, - | ⟨w, rest⟩⟩⟩
      all_goals first
        | exact moved_pure rfl
        | exact moved_newObject none (.mapped _ t)
        | exact moved_stripNullish h t
        | exact moved_recordType t u
        | exact moved_selectedType h _ t u
        | exact moved_namedType h _ _
  · rw [genericOf_other hname, genericOf_other hname]
    exact moved_namedType h name args

lemma moved_genericType (e : Cursor) :
    Moved v c (Ty.rename v.place) (genericType ask e) (genericType ask e) :=
  (moved_typeArguments h e).bind fun args => moved_genericOf h _ args

lemma moved_intersectionType (parts : List Ty) : Moved v c (Ty.rename v.place)
    (intersectionType ask parts) (intersectionType ask (parts.map (Ty.rename v.place))) := by
  refine (moved_filterM fun t _ => ?_).bind fun objects => ?_
  · exact (h.properties c t).bind fun ps => moved_pure (by cases ps <;> rfl)
  · cases objects with
    | cons o os => exact moved_newObject none (.merged (o :: os))
    | nil =>
      cases parts with
      | nil => exact moved_pure rfl
      | cons t ts => exact moved_pure rfl

/-- What a type expression denotes is carried over. -/
theorem moved_typeExpression (e : Cursor) :
    Moved v c (Ty.rename v.place) ( denotation ask e) ( denotation ask e) := by
  unfold denotation
  split
  · exact moved_denotedBy h _
  · exact moved_denotedBy h _
  · exact moved_denotedBy h _
  · exact moved_denotedBy h _
  · refine moved_pure ?_
    cases Primitive.ofName? e.text <;> rfl
  · exact moved_literalType _
  · exact moved_pure rfl
  · exact moved_pure rfl
  · exact (moved_denotedAll h _).bind fun ts => moved_makeUnion h ts
  · exact (moved_denotedAll h _).bind fun ts => moved_intersectionType h ts
  · exact (moved_denotedBy h _).bind fun _ => moved_pure rfl
  · exact (moved_denotedAll h _).bind fun ts =>
      moved_pure (by rw [Ty.rename, Ty.renameAll_eq_map])
  · exact moved_objectOf h e none
  · exact moved_objectOf h e none
  · exact moved_namedType h e.text []
  · exact moved_nestedType e
  · exact moved_genericType h e
  · exact moved_pure rfl
  · exact moved_pure rfl
  · split
    · split
      · exact h.typeOf c _
      · exact moved_pure rfl
    · exact moved_pure rfl
  · exact moved_pure rfl
  · exact moved_pure rfl

end

end RouteScribe.Typing
