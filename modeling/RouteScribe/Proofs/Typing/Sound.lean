import Mathlib
import RouteScribe.Proofs.Source.LegiblePrograms
import RouteScribe.Proofs.Typing.Budget

/-!
# What every run of inference keeps

A run on a file stays in the file, and forgets nothing: an object whose properties are known has the
same properties ever after.  A run that fails does so for want of depth, or because a number is too long
to be displayed, if all numbers of the file can be read.  `Watch.Sound` puts the three together as a triple, and there is one statement per
function of inference, in the order of the definitions; `sound_answer` closes the recursion.

That nothing is forgotten is not obvious where properties are worked out (`sound_objectProperties`):
the object counts as one without properties while that goes on, and gets its properties in the end.
Whatever was known before is none of its business, since the object itself was not.
-/

set_option mvcgen.warning false

namespace RouteScribe.Typing

open Std.Do Infer
open Source (Node Cursor)

namespace Store

/-- The shape of an object. -/
def shape? (s : Store) (id : Nat) : Option Shape := (s.objects[id]?).map (·.shape)

/-- The properties of an object are known. -/
def Knows (s : Store) (id : Nat) (properties : List Property) : Prop :=
  s.shape? id = some (.known properties)

/-- What is known in a store is known in another. -/
def Keeps (s s' : Store) : Prop := ∀ id properties, s.Knows id properties → s'.Knows id properties

lemma Keeps.refl (s : Store) : s.Keeps s := fun _ _ h => h

section

variable {s : Store} {id : Nat} {f : ObjectInfo → ObjectInfo}

lemma shape?_change (i : Nat) :
    (s.change id f).shape? i =
      if id = i then (s.objects[i]?).map fun o => (f o).shape else s.shape? i := by
  rw [shape?, shape?, change, Array.getElem?_modify]
  split
  · rw [Option.map_map]
    rfl
  · rfl

lemma shape?_push (o : ObjectInfo) (i : Nat) :
    ({ s with objects := s.objects.push o } : Store).shape? i =
      if i = s.objects.size then some o.shape else s.shape? i := by
  rw [shape?, shape?, Array.getElem?_push]
  split
  · rfl
  · rfl

lemma Knows.lt_size {properties : List Property} (h : s.Knows id properties) :
    id < s.objects.size := by
  obtain ⟨o, ho, -⟩ := Option.map_eq_some_iff.1 h
  exact (Array.getElem?_eq_some_iff.1 ho).1

end

end Store

/-! ## Watches -/

/-- The declarations that a context holds are nodes of a file. -/
structure Context.Within (root : Node) (c : Context) : Prop where
  aliases : ∀ a ∈ c.aliases, Source.Within root a.2
  enums : ∀ a ∈ c.enums, Source.Within root a.2

/-- What is watched along a run: the file, what was known before, and the failures that may come. -/
structure Watch where
  root : Node
  before : Store
  fails : Failure → Prop

namespace Watch

variable (w : Watch)

/-- A store of the file, with all objects that were there before, and in which everything is known
that was known before. -/
structure Holds (s : Store) : Prop where
  within : s.Within w.root
  grows : w.before.objects.size ≤ s.objects.size
  keeps : w.before.Keeps s

/-- Queries may fail by themselves: the depth may not be enough, and a number may be too long to be
displayed. -/
structure Lenient : Prop where
  exhausted : w.fails .exhausted
  longNumber : w.fails .longNumber

/-- A run that stays in the file and forgets nothing, and fails as expected only. -/
abbrev Sound {α : Type} (x : Infer α) : Prop :=
  ⦃fun c s => ⌜c.Within w.root ∧ w.Holds s⌝⦄ x
  ⦃post⟨fun _ c s => ⌜c.Within w.root ∧ w.Holds s⌝, fun e _ => ⌜w.fails e⌝⟩⦄

end Watch

/-- A query about a node of a file, or about a type. -/
def Query.Within {α : Type} (root : Node) : Query α → Prop
  | .typeOf c | .denoted c => Source.Within root c
  | .properties _ | .display _ => True

section

variable {α β : Type} {w : Watch} {c : Context} {s : Store}

@[simp] lemma Context.within_mk {root : Node} {resolving : List Cursor.Key}
    {resolvingAliases : List String} {displaying : List Nat} {depth : Nat}
    {limited : Bool} : Context.Within root
      ⟨c.aliases, c.enums, resolving, resolvingAliases, displaying, depth, limited⟩ ↔
      c.Within root :=
  ⟨fun h => ⟨h.aliases, h.enums⟩, fun h => ⟨h.aliases, h.enums⟩⟩

lemma Context.Within.of_lookup_aliases {root : Node} {name : String} {declaration : Cursor}
    (h : c.Within root) (hname : c.aliases.lookup name = some declaration) :
    Source.Within root declaration :=
  h.aliases _ (mem_of_lookup hname)

lemma Context.Within.of_lookup_enums {root : Node} {name : String} {declaration : Cursor}
    (h : c.Within root) (hname : c.enums.lookup name = some declaration) :
    Source.Within root declaration :=
  h.enums _ (mem_of_lookup hname)

/-- A triple, read off how the runs end. -/
lemma triple_iff {x : Infer α} {Before : Context → Store → Prop}
    {After : α → Context → Store → Prop} {Failed : Failure → Store → Prop} :
    ⦃fun c s => ⌜Before c s⌝⦄ x ⦃post⟨fun a c s => ⌜After a c s⌝, fun e s => ⌜Failed e s⌝⟩⦄ ↔
      ∀ c s, Before c s → (∀ a s', x.exec c s = (.ok a, s') → After a c s') ∧
        ∀ e s', x.exec c s = (.error e, s') → Failed e s' := by
  have hplace (c : Context) (s : Store) :
      (wp⟦x⟧ (post⟨fun a c s => ⌜After a c s⌝, fun e s => ⌜Failed e s⌝⟩) c s).down ↔
        (∀ a s', x.exec c s = (.ok a, s') → After a c s') ∧
          ∀ e s', x.exec c s = (.error e, s') → Failed e s' := by
    -- Only the run from this place matters, so it may as well be the only one.
    let run (out : Outcome α) : Infer α := fun _ _ => out
    change (wp⟦run (x.exec c s)⟧
      (post⟨fun a c s => ⌜After a c s⌝, fun e s => ⌜Failed e s⌝⟩) c s).down ↔ _
    rcases x.exec c s with ⟨e | a, s'⟩
    · exact ⟨fun h => ⟨fun _ _ heq => (by cases heq), fun _ _ heq => (by cases heq; exact h)⟩,
        fun h => h.2 e s' rfl⟩
    · exact ⟨fun h => ⟨fun _ _ heq => (by cases heq; exact h), fun _ _ heq => (by cases heq)⟩,
        fun h => h.1 a s' rfl⟩
  exact ⟨fun h c s hs => (hplace c s).1 (h c s hs), fun h c s hs => (hplace c s).2 (h c s hs)⟩

lemma Watch.Sound.bind {x : Infer α} {f : α → Infer β} (hx : w.Sound x) (hf : ∀ a, w.Sound (f a)) :
    w.Sound (x >>= f) := by
  mvcgen [hx, hf]

/-- A failure that is expected. -/
@[spec] lemma sound_throw {e : Failure} (he : w.fails e) : w.Sound (throw e : Infer α) :=
  triple_iff.2 fun _ _ _ => ⟨fun _ _ h => (by cases h), fun _ _ h => by cases h; exact he⟩

/-! ## Steps that use the store -/

@[simp] lemma Watch.holds_mk {aliases : List (String × Ty)} :
    w.Holds ⟨s.objects, aliases⟩ ↔ w.Holds s :=
  ⟨fun h => ⟨h.within, h.grows, h.keeps⟩, fun h => ⟨h.within, h.grows, h.keeps⟩⟩

lemma Watch.Holds.push (h : w.Holds s) (name : Option String) {shape : Shape}
    (hshape : shape.Within w.root) :
    w.Holds { s with objects := s.objects.push ⟨name, shape⟩ } where
  within o ho := by
    rw [Array.toList_push, List.mem_append, List.mem_singleton] at ho
    rcases ho with ho | rfl
    · exact h.within o ho
    · exact hshape
  grows := h.grows.trans (by simp)
  keeps id properties hid := by
    have hknown := h.keeps id properties hid
    rw [Store.Knows, Store.shape?_push, if_neg hknown.lt_size.ne]
    exact hknown

/-- A change of an object that was not known before, or one that does not touch its shape. -/
lemma Watch.Holds.change (h : w.Holds s) {id : Nat} {f : ObjectInfo → ObjectInfo}
    (hf : ∀ o, (f o).shape = o.shape ∨
      (f o).shape.isKnown = true ∧ ∀ properties, ¬w.before.Knows id properties) :
    w.Holds (s.change id f) where
  within := Store.within_change (fun o => (hf o).imp_right And.left) h.within
  grows := h.grows.trans (Store.size_change s f).ge
  keeps i properties hi := by
    have hknown := h.keeps i properties hi
    rw [Store.Knows, Store.shape?_change]
    split
    case isFalse => exact hknown
    case isTrue hid =>
      subst hid
      obtain ⟨o, ho, hshape⟩ := Option.map_eq_some_iff.1 hknown
      rcases hf o with hsame | ⟨-, hnew⟩
      · rw [ho, Option.map_some, hsame, hshape]
      · exact absurd hi (hnew properties)

@[spec] lemma sound_newObject (name : Option String) {shape : Shape} (h : shape.Within w.root) :
    w.Sound (newObject name shape) := by
  mvcgen [newObject]
  rename_i hs
  exact ⟨hs.1, hs.2.push name h⟩

@[spec] lemma sound_modifyObject (id : Nat) {f : ObjectInfo → ObjectInfo}
    (hf : ∀ o, (f o).shape = o.shape ∨
      (f o).shape.isKnown = true ∧ ∀ properties, ¬w.before.Knows id properties) :
    w.Sound (modifyObject id f) := by
  mvcgen [modifyObject]
  rename_i hs _
  exact ⟨hs.1, hs.2.change hf⟩

/-- The entry of an object: its shape is worked out from the file, and is what was known before. -/
@[spec] lemma sound_objectInfo (id : Nat) :
    ⦃fun c s => ⌜c.Within w.root ∧ w.Holds s⌝⦄ objectInfo id
    ⦃post⟨fun o c s => ⌜(c.Within w.root ∧ w.Holds s) ∧ o.shape.Within w.root ∧
        ∀ properties, w.before.Knows id properties → o.shape = .known properties⌝,
      fun e _ => ⌜w.fails e⌝⟩⦄ := by
  mvcgen [objectInfo]
  rename_i s hs
  refine ⟨hs, ?_, fun properties hknown => ?_⟩
  · rcases hid : s.objects[id]? with - | o
    · trivial
    · exact hs.2.within o (Array.mem_toList_iff.2 (Array.mem_of_getElem? hid))
  · obtain ⟨o, ho, hshape⟩ := Option.map_eq_some_iff.1 (hs.2.keeps id properties hknown)
    rw [ho, Option.getD_some, hshape]

@[spec] lemma sound_recordType (key value : Ty) : w.Sound (recordType key value) := by
  mvcgen [recordType] with simp [Shape.Within]

@[spec] lemma sound_symbolName? (t : Ty) : w.Sound (symbolName? t) := by
  mvcgen [symbolName?] with grind

/-! ## Lists -/

@[spec] lemma sound_mapM {f : α → Infer β} {l : List α} (h : ∀ a ∈ l, w.Sound (f a)) :
    w.Sound (l.mapM f) := by
  induction l with
  | nil =>
    rw [List.mapM_nil]
    mvcgen
  | cons a l ih =>
    have hfirst := h a List.mem_cons_self
    have hrest := ih fun b hb => h b (List.mem_cons_of_mem _ hb)
    rw [List.mapM_cons]
    mvcgen [hfirst, hrest]

@[spec] lemma sound_filterM {f : α → Infer Bool} {l : List α} (h : ∀ a ∈ l, w.Sound (f a)) :
    w.Sound (l.filterM f) := by
  have hfrom (found : List α) : w.Sound (l.filterAuxM f found) := by
    induction l generalizing found with
    | nil =>
      rw [List.filterAuxM]
      mvcgen
    | cons a l ih =>
      have hfirst := h a List.mem_cons_self
      have hrest := ih fun b hb => h b (List.mem_cons_of_mem _ hb)
      rw [List.filterAuxM]
      mvcgen [hfirst, hrest]
  mvcgen [List.filterM, hfrom]

end

/-! ## Numbers -/

@[spec] lemma sound_ofNumbers {α : Type} {w : Watch} {r : Except Numeral.NotANumber α}
    (h : ∃ a, r = .ok a) : w.Sound (Infer.ofNumbers r) := by
  obtain ⟨a, rfl⟩ := h
  mvcgen [Infer.ofNumbers]

section

variable {root : Node} {c : Cursor} (hlegible : root.Legible)

include hlegible

lemma exists_negatedNumber? (hc : Source.Within root c) : ∃ v, negatedNumber? c = .ok v := by
  unfold negatedNumber?
  split
  case h_2 => exact ⟨_, rfl⟩
  case h_1 op arg _ harg =>
    split
    case isFalse => exact ⟨_, rfl⟩
    case isTrue hnumber =>
      simp only [Bool.and_eq_true, beq_iff_eq] at hnumber
      obtain ⟨v, hv⟩ := (hc.child harg).exists_read hlegible hnumber.2
      exact ⟨v.map Numeral.neg, by rw [hv]; rfl⟩

lemma exists_constantValue? (hc : Source.Within root c) : ∃ v, constantValue? c = .ok v := by
  unfold constantValue?
  dsimp only
  split
  case isTrue hnumber =>
    obtain ⟨v, hv⟩ := hc.unwrap.exists_read hlegible (eq_of_beq hnumber)
    exact ⟨v.map .number, by rw [hv]; rfl⟩
  case isFalse =>
    split
    case h_1 => exact ⟨_, rfl⟩
    case h_2 =>
      split
      case isFalse => exact ⟨_, rfl⟩
      case isTrue =>
        obtain ⟨v, hv⟩ := exists_negatedNumber? hlegible hc.unwrap
        exact ⟨v.map .number, by rw [hv]; rfl⟩

lemma exists_membersFrom {next : Option Int} {table : List (String × Option Constant)}
    {ms : List Cursor} (hms : ∀ m ∈ ms, Source.Within root m) :
    ∃ v, membersFrom next table ms = .ok v := by
  induction ms generalizing next table with
  | nil => exact ⟨table, rfl⟩
  | cons m rest ih =>
    have hnext {next : Option Int} {table : List (String × Option Constant)} :
        ∃ v, membersFrom next table rest = .ok v :=
      ih fun m hm => hms m (List.mem_cons_of_mem _ hm)
    rw [membersFrom]
    extract_lets put
    by_cases hkind : (m.kind == .enumAssignment) = true
    · rw [if_pos hkind]
      have hput (value : Option Constant) : ∃ v, put value = .ok v := by
        dsimp only [put]
        rcases (m.child? .name).bind Cursor.memberKey? with - | name
        · exact hnext
        · exact hnext
      rcases hchild : m.child? .value with - | v
      · exact hput none
      · obtain ⟨value, hvalue⟩ :=
          exists_constantValue? hlegible ((hms m List.mem_cons_self).child hchild)
        simp only [hvalue]
        exact hput value
    · rw [if_neg hkind]
      rcases hname : m.memberKey? with - | name
      · exact hnext
      · exact hnext

lemma exists_enumMembers (hc : Source.Within root c) : ∃ v, enumMembers c = .ok v := by
  unfold enumMembers
  split
  case h_1 body hbody => exact exists_membersFrom hlegible fun m hm => (hc.child hbody).named hm
  case h_2 => exact ⟨[], rfl⟩

end

lemma within_of_enumAccess? {root : Node} {c declaration : Cursor} {member : String}
    (hc : Source.Within root c) (h : enumAccess? c = some (declaration, member)) :
    Source.Within root declaration := by
  obtain ⟨⟨name, object⟩, hmember, h⟩ := Option.bind_eq_some_iff.1 h
  have hobject : Source.Within root object := hc.unwrap.member hmember
  dsimp only at h
  split at h
  case isTrue => cases h
  case isFalse =>
    obtain ⟨d, hd, h⟩ := Option.bind_eq_some_iff.1 h
    split at h
    case isTrue =>
      cases h
      exact hobject.unwrap.declaration hd
    case isFalse => cases h

lemma exists_enumMemberValue? {root : Node} {c : Cursor} (hlegible : root.Legible)
    (hc : Source.Within root c) : ∃ v, enumMemberValue? c = .ok v := by
  unfold enumMemberValue?
  split
  case h_1 d name hd =>
    obtain ⟨members, hmembers⟩ := exists_enumMembers hlegible (within_of_enumAccess? hc hd)
    exact ⟨(members.lookup name).join, by rw [hmembers]; rfl⟩
  case h_2 => exact ⟨none, rfl⟩

/-! ## Unions and display -/

attribute [local grind →] Source.Within.child Source.Within.named Source.Within.member
  Source.Within.declaration Source.Within.declaredFunction List.mem_of_head? List.mem_of_getLast?
  Context.Within.of_lookup_aliases Context.Within.of_lookup_enums within_of_enumAccess?
attribute [local grind ←] Source.Within.unwrap
attribute [local grind =] Query.Within Shape.Within Context.within_mk Watch.holds_mk

section

variable {w : Watch} {ask : Answers}
  (hask : ∀ (α : Type) (q : Query α), q.Within w.root → w.Sound (ask α q))

include hask

@[spec] lemma sound_unionKey (t : Ty) : w.Sound (unionKey ask t) := by
  mvcgen [unionKey, hask]

@[spec] lemma sound_makeUnion (types : List Ty) : w.Sound (makeUnion ask types) := by
  mvcgen [makeUnion, hask] with grind

@[spec] lemma sound_widen (t : Ty) : w.Sound (widen ask t) := by
  mvcgen [widen, hask] with grind

@[spec] lemma sound_filterUnion (test : Ty → Bool) (t : Ty) : w.Sound (filterUnion ask test t) := by
  mvcgen [filterUnion, hask] with grind

@[spec] lemma sound_stripNullish (t : Ty) : w.Sound (stripNullish ask t) := by
  mvcgen [stripNullish, hask] with grind

@[spec] lemma sound_withUndefined (t : Ty) : w.Sound (withUndefined ask t) := by
  mvcgen [withUndefined, hask] with grind

@[spec] lemma sound_presentType (p : Property) : w.Sound (presentType ask p) := by
  mvcgen [presentType, hask] with grind

@[spec] lemma sound_elementType? (t : Ty) : w.Sound (elementType? ask t) := by
  mvcgen [elementType?, hask] with grind

@[spec] lemma sound_propertiesOf (t : Ty) : w.Sound (propertiesOf ask t) := by
  mvcgen [propertiesOf, hask]

@[spec] lemma sound_displayProperties (properties : List Property) :
    w.Sound (displayProperties ask properties) := by
  mvcgen [displayProperties, hask] with grind

omit hask in
@[spec] lemma sound_numberText (hlong : w.fails .longNumber) (n : Numeral) :
    w.Sound (numberText n) := by
  mvcgen [numberText]

@[spec] lemma sound_displayText (hlong : w.fails .longNumber) (t : Ty) :
    w.Sound (displayText ask t) := by
  mvcgen [displayText, hask] with grind

/-! ## What type expressions denote -/

@[spec] lemma sound_denotedBy {c : Option Cursor} (hc : ∀ d, c = some d → Source.Within w.root d) :
    w.Sound (denotedBy ask c) := by
  mvcgen [denotedBy, hask] with grind

@[spec] lemma sound_denotedAll {cs : List Cursor} (hcs : ∀ d ∈ cs, Source.Within w.root d) :
    w.Sound (denotedAll ask cs) := by
  mvcgen [denotedAll, hask] with grind

@[spec] lemma sound_typeArguments {c : Cursor} (hc : Source.Within w.root c) :
    w.Sound (typeArguments ask c) := by
  mvcgen [typeArguments, hask] with grind

@[spec] lemma sound_declaredProperties {body : Cursor} (hbody : Source.Within w.root body) :
    w.Sound (declaredProperties ask body) := by
  refine Watch.Sound.bind (sound_mapM fun m hm => ?_) fun _ => by mvcgen
  have hwithin : Source.Within w.root m := hbody.named (List.mem_of_mem_filter hm)
  rcases (m.child? .name).bind Cursor.memberKey? with - | name
  · mvcgen
  · mvcgen [hask] with grind

@[spec] lemma sound_indexedValue? {body : Cursor} (hbody : Source.Within w.root body) :
    w.Sound (indexedValue? ask body) := by
  mvcgen [indexedValue?, hask] with grind

@[spec] lemma sound_objectOf {body : Cursor} (name : Option String)
    (hbody : Source.Within w.root body) : w.Sound (objectOf ask body name) := by
  mvcgen [objectOf, hask] with grind

@[spec] lemma sound_interfaceProperties {declaration : Cursor}
    (h : Source.Within w.root declaration) : w.Sound (interfaceProperties ask declaration) := by
  mvcgen [interfaceProperties, hask] with grind

@[spec] lemma sound_mapProperty (how : Mapping) (p : Property) :
    w.Sound (mapProperty ask how p) := by
  mvcgen [mapProperty, hask] with grind

@[spec] lemma sound_shapeProperties {shape : Shape} (h : shape.Within w.root) :
    w.Sound (shapeProperties ask shape) := by
  mvcgen [shapeProperties, hask] with grind

@[spec] lemma sound_objectProperties (t : Ty) : w.Sound (objectProperties ask t) := by
  mvcgen [objectProperties, hask]
  -- The object was not known before, so it is free to become one with these properties.
  case vc3.hf | vc9.hf => exact fun o => .inr ⟨rfl, by grind⟩
  all_goals grind

@[spec] lemma sound_declaredType (name : String) {declaration : Cursor}
    (h : Source.Within w.root declaration) :
    w.Sound (declaredType ask name declaration) := by
  mvcgen [declaredType, hask] with grind

@[spec] lemma sound_aliasType (name : String) {declaration : Cursor}
    (h : Source.Within w.root declaration) :
    w.Sound (aliasType ask name declaration) := by
  mvcgen [aliasType, hask] with grind

@[spec] lemma sound_selectedType (keep : Bool) (source keys : Ty) :
    w.Sound (selectedType ask keep source keys) := by
  mvcgen [selectedType, hask] with grind

@[spec] lemma sound_intersectionType (parts : List Ty) : w.Sound (intersectionType ask parts) := by
  mvcgen [intersectionType, hask] with grind

/-! ## The types of expressions -/

@[spec] lemma sound_typeOf? {c : Option Cursor} (hc : ∀ d, c = some d → Source.Within w.root d) :
    w.Sound (typeOf? ask c) := by
  mvcgen [typeOf?, hask] with grind

@[spec] lemma sound_nameType {c : Cursor} (hc : Source.Within w.root c) :
    w.Sound (nameType ask c) := by
  mvcgen [nameType, hask] with grind

@[spec] lemma sound_literalMember {m : Cursor} (hm : Source.Within w.root m) :
    w.Sound (literalMember ask m) := by
  mvcgen [literalMember, hask] with grind

@[spec] lemma sound_objectLiteralType {c : Cursor} (hc : Source.Within w.root c) :
    w.Sound (objectLiteralType ask c) := by
  mvcgen [objectLiteralType, hask] with grind

@[spec] lemma sound_arrayLiteralType {c : Cursor} (hc : Source.Within w.root c) :
    w.Sound (arrayLiteralType ask c) := by
  mvcgen [arrayLiteralType, hask] with grind

@[spec] lemma sound_hasLength (t : Ty) : w.Sound (hasLength ask t) := by
  mvcgen [hasLength, hask] with grind

@[spec] lemma sound_propertyType (target : Ty) (name : String) :
    w.Sound (propertyType ask target name) := by
  mvcgen [propertyType, hask] with grind

@[spec] lemma sound_elementAccessType {c : Cursor} (hc : Source.Within w.root c) :
    w.Sound (elementAccessType ask c) := by
  mvcgen [elementAccessType, hask] with grind

@[spec] lemma sound_functionResult {callee : Cursor} (hc : Source.Within w.root callee) :
    w.Sound (functionResult ask callee) := by
  have hfunction (f : Cursor) (hf : callee.declaration?.bind Cursor.declaredFunction? = some f) :
      Source.Within w.root f := by
    obtain ⟨d, hd, hf⟩ := Option.bind_eq_some_iff.1 hf
    exact (hc.declaration hd).declaredFunction hf
  mvcgen [functionResult, hask] with grind

@[spec] lemma sound_callType {c : Cursor} (hc : Source.Within w.root c) :
    w.Sound (callType ask c) := by
  mvcgen [callType, hask] with grind

@[spec] lemma sound_constructedType {c : Cursor} (hc : Source.Within w.root c) :
    w.Sound (constructedType ask c) := by
  mvcgen [constructedType, hask] with grind

@[spec] lemma sound_binaryType {c : Cursor} (hc : Source.Within w.root c) :
    w.Sound (binaryType ask c) := by
  mvcgen [binaryType, hask] with grind

@[spec] lemma sound_castType {c : Cursor} (hc : Source.Within w.root c) :
    w.Sound (castType ask c) := by
  have hfirst {d : Cursor} {rest : List Cursor} (h : c.named = d :: rest) :
      Source.Within w.root d := hc.named (by simp [h])
  have hsecond {d e : Cursor} {rest : List Cursor} (h : c.named = d :: e :: rest) :
      Source.Within w.root e := hc.named (by simp [h])
  mvcgen [castType, hask] with grind

end

section

/-! ## Numbers in types and expressions -/

variable {w : Watch} {ask : Answers} (hlegible : w.root.Legible)

include hlegible

@[spec] lemma sound_literalType {c : Option Cursor}
    (hc : ∀ d, c = some d → Source.Within w.root d) : w.Sound (literalType c) := by
  mvcgen [literalType] with grind [exists_constantValue?]

@[spec] lemma sound_enumTypes (name : String) {declaration : Cursor}
    (h : Source.Within w.root declaration) :
    w.Sound (enumTypes name declaration) := by
  mvcgen [enumTypes] with grind [exists_enumMembers]

@[spec] lemma sound_enumMemberType {declaration : Cursor} (member : String)
    (h : Source.Within w.root declaration) :
    w.Sound (enumMemberType declaration member) := by
  mvcgen [enumMemberType] with grind [exists_enumMembers]

@[spec] lemma sound_unaryType {c : Cursor} (hc : Source.Within w.root c) :
    w.Sound (unaryType c) := by
  mvcgen [unaryType] with grind [exists_negatedNumber?]

@[spec] lemma sound_nestedType (c : Cursor) : w.Sound (nestedType c) := by
  mvcgen [nestedType, hlegible] with grind

variable (hask : ∀ (α : Type) (q : Query α), q.Within w.root → w.Sound (ask α q))

include hask

@[spec] lemma sound_namedType (name : String) (args : List Ty) :
    w.Sound (namedType ask name args) := by
  mvcgen [namedType, hask, hlegible] with grind

@[spec] lemma sound_genericOf (name : String) (args : List Ty) :
    w.Sound (genericOf ask name args) := by
  mvcgen [genericOf, hask, hlegible] with grind

@[spec] lemma sound_genericType {c : Cursor} (hc : Source.Within w.root c) :
    w.Sound (genericType ask c) := by
  mvcgen [genericType, hask, hlegible] with grind

@[spec] lemma sound_denotation {c : Cursor} (hc : Source.Within w.root c) :
    w.Sound ( denotation ask c) := by
  mvcgen [ denotation, hask, hlegible] with grind

@[spec] lemma sound_memberType {c : Cursor} (hc : Source.Within w.root c) :
    w.Sound (memberType ask c) := by
  mvcgen [memberType, hask, hlegible] with grind

@[spec] lemma sound_expressionType {c : Cursor} (hc : Source.Within w.root c) :
    w.Sound (expressionType ask c) := by
  mvcgen [expressionType, hask, hlegible] with grind [Source.Within.exists_read]

@[spec] lemma sound_resolvedType {c : Cursor} (hc : Source.Within w.root c) :
    w.Sound (resolvedType ask c) := by
  mvcgen [resolvedType, hask, hlegible] with grind

end

/-! ## Answers -/

section

variable {α : Type} {w : Watch} (hlegible : w.root.Legible) (hlenient : w.Lenient)

include hlegible hlenient

theorem sound_answer (d : Nat) (q : Query α) (hq : q.Within w.root) : w.Sound (answer d α q) := by
  induction d generalizing α with
  | zero => exact sound_throw hlenient.exhausted
  | succ d ih =>
    cases q with
    | typeOf c => exact sound_resolvedType hlegible (fun _ q => ih q) hq
    | denoted c => exact sound_denotation hlegible (fun _ q => ih q) hq
    | properties t => exact sound_objectProperties (fun _ q => ih q) t
    | display t => exact sound_displayText (fun _ q => ih q) hlenient.longNumber t

lemma sound_ask (q : Query α) (hq : q.Within w.root) : w.Sound (ask α q) := by
  have hanswer (d : Nat) := sound_answer hlegible hlenient d q hq
  mvcgen [ask, hanswer]

end

end RouteScribe.Typing
