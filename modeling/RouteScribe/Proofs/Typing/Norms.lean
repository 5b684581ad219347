import RouteScribe.Proofs.Typing.Keys
import RouteScribe.Proofs.Typing.NormalTypes

/-!
# What every run of inference produces

All types that come up while a file is analyzed are normal, and so are those that the store holds; the
numbers among them are numbers of the file (`NumberOf`), so only a number of the file can be too long to
be displayed.  If that is asked for (`Norm.strict`), no object has two properties of one name either; that takes a file
whose object types and interfaces have no name twice (`HasDistinctMembers`), and whose records are given
keys that are different strings (`HasKeyedRecords`).

`Norm.Keeps` says this of a run, and of its result what is asked for.  A run that fails keeps to the norm
as well, so it does not matter what became of the questions that were asked before.
-/

namespace RouteScribe.Typing

open Std.Do Infer
open Source (Node Cursor)

/-! ## Numbers of a file -/

/-- The value of a numeric literal of a file, or the value with the opposite sign. -/
def NumberOf (root : Node) (v : Numeral) : Prop :=
  ∃ c ∈ (Cursor.ofRoot root).preorder, c.kind = .number ∧
    ∃ n, Numeral.read c.text = .ok (some n) ∧ (v = n ∨ v = n.neg)

/-- A numeric literal whose value is an integer that is too long to be displayed. -/
def isLongNumber (c : Cursor) : Bool :=
  c.kind == .number &&
    match Numeral.read c.text with
    | .ok (some n) => n.isLong
    | _ => false

/-- Some number of a file is too long to be displayed. -/
def LongNumber (root : Node) : Prop :=
  ∃ c ∈ (Cursor.ofRoot root).preorder, isLongNumber c = true

instance (root : Node) : Decidable (LongNumber root) :=
  inferInstanceAs (Decidable (∃ c ∈ (Cursor.ofRoot root).preorder, isLongNumber c = true))

section

variable {root : Node} {c : Cursor} {n : Numeral}

lemma numberOf_of_read (hc : Source.Within root c) (hkind : c.kind = .number)
    (hread : Numeral.read c.text = .ok (some n)) : NumberOf root n :=
  ⟨c, hc.mem_preorder, hkind, n, hread, .inl rfl⟩

lemma numberOf_of_negatedNumber? (hc : Source.Within root c)
    (h : negatedNumber? c = .ok (some n)) : NumberOf root n := by
  unfold negatedNumber? at h
  split at h
  case h_2 => cases h
  case h_1 op arg _ harg =>
    split at h
    case isFalse => cases h
    case isTrue hnumber =>
      simp only [Bool.and_eq_true, beq_iff_eq] at hnumber
      rcases hread : Numeral.read arg.text with e | v
      · rw [hread] at h
        cases h
      · rw [hread] at h
        obtain ⟨m, rfl, rfl⟩ := Option.map_eq_some_iff.1 (Except.ok.inj h)
        exact ⟨arg, (hc.child harg).mem_preorder, hnumber.2, m, hread, .inr rfl⟩

lemma numberOf_of_constantValue? (hc : Source.Within root c)
    (h : constantValue? c = .ok (some (.number n))) : NumberOf root n := by
  unfold constantValue? at h
  dsimp only at h
  split at h
  case isTrue hnumber =>
    rcases hread : Numeral.read c.unwrap.text with e | v
    · rw [hread] at h
      cases h
    · rw [hread] at h
      obtain ⟨m, rfl, hm⟩ := Option.map_eq_some_iff.1 (Except.ok.inj h)
      cases hm
      exact numberOf_of_read hc.unwrap (eq_of_beq hnumber) hread
  case isFalse =>
    split at h
    case h_1 => cases h
    case h_2 =>
      split at h
      case isFalse => cases h
      case isTrue =>
        rcases hnegated : negatedNumber? c.unwrap with e | v
        · rw [hnegated] at h
          cases h
        · rw [hnegated] at h
          obtain ⟨m, rfl, hm⟩ := Option.map_eq_some_iff.1 (Except.ok.inj h)
          cases hm
          exact numberOf_of_negatedNumber? hc.unwrap hnegated

lemma isLong_neg (n : Numeral) : n.neg.isLong = n.isLong := by
  cases n with
  | exact n => rw [Numeral.neg, Numeral.isLong, Numeral.isLongInt, Int.natAbs_neg]; rfl
  | fractional x => rfl

/-- A long number among those of a file stands in the file. -/
lemma NumberOf.longNumber (h : NumberOf root n) (hn : n.isLong = true) : LongNumber root := by
  obtain ⟨c, hc, hkind, m, hread, hm⟩ := h
  refine ⟨c, hc, ?_⟩
  have hlong : m.isLong = true := by
    rcases hm with rfl | rfl
    · exact hn
    · rwa [isLong_neg] at hn
  simp [isLongNumber, hkind, hread, hlong]

end

/-! ## Norms -/

/-- Object types and interfaces of a file have no name twice. -/
def HasDistinctMembers (root : Node) : Prop :=
  ∀ body, Source.Within root body → body.kind ∈ [Source.Kind.objectType, .interfaceBody] →
    ((declaredNames body).map (·.1)).Nodup

/-- A context that reads the declarations of a file. -/
structure Context.Of (root : Node) (c : Context) : Prop where
  aliases : c.aliases = aliasesOf root
  enums : c.enums = enumsOf root

lemma Context.Of.within {root : Node} {c : Context} (h : c.Of root) : c.Within root where
  aliases _ ha := within_of_mem_declarationsOf (h.aliases ▸ ha)
  enums _ ha := within_of_mem_declarationsOf (h.enums ▸ ha)

/-- What is asked of the types and lists of properties that come up while a file is analyzed: that types
are normal and their numbers are those of the file, and, if it is strict, that no list has a name
twice. -/
structure Norm where
  root : Node
  strict : Prop

namespace Norm

variable (n : Norm)

/-- A normal type with numbers of the file. -/
abbrev Allows (t : Ty) : Prop := t.IsNormal (NumberOf n.root)

/-- Only a file with a long number fails because a number is too long. -/
def Excuses (e : Failure) : Prop := e = .longNumber → LongNumber n.root

/-- Properties with normal types, and with different names if that is asked for. -/
def Lists (ps : List Property) : Prop :=
  (∀ p ∈ ps, n.Allows p.type) ∧ (n.strict → (ps.map (·.name)).Nodup)

/-- A shape with normal types, whose members have different names if that is asked for. -/
def Fits : Shape → Prop
  | .known ps => n.Lists ps
  | .interface declaration => Source.Within n.root declaration
  | .members body =>
    Source.Within n.root body ∧ (n.strict → ((declaredNames body).map (·.1)).Nodup)
  | .mapped _ source => n.Allows source
  | .merged parts => ∀ t ∈ parts, n.Allows t

/-- A name that stands for a type with different keys, as can be seen from its declaration. -/
def IsKeyedAlias (name : String) : Prop :=
  ∃ declaration value, (aliasesOf n.root).lookup name = some declaration ∧
    declaration.kind ≠ .interfaceDeclaration ∧ declaration.child? .value = some value ∧
    IsKeyed n.root value

/-- A store with shapes that fit and normal types. -/
structure Kept (s : Store) : Prop where
  shapes : ∀ id shape, s.shape? id = some shape → n.Fits shape
  aliases : ∀ a ∈ s.aliases, n.Allows a.2 ∧ (n.IsKeyedAlias a.1 → a.2.strings.Nodup)

/-- A run that keeps to the norm, whether it fails or not, and the results that it gives. -/
abbrev Keeps {α : Type} (x : Infer α) (R : α → Prop) : Prop :=
  ⦃fun c s => ⌜c.Of n.root ∧ n.Kept s⌝⦄ x
  ⦃post⟨fun a c s => ⌜R a ∧ c.Of n.root ∧ n.Kept s⌝, fun e s => ⌜n.Excuses e ∧ n.Kept s⌝⟩⦄

/-- Answers that keep to the norm. -/
structure Answers (ask : Typing.Answers) : Prop where
  typeOf : ∀ c, Source.Within n.root c → n.Keeps (ask _ (.typeOf c)) n.Allows
  denoted : ∀ e, Source.Within n.root e → n.Keeps (ask _ (.denoted e)) fun t =>
    n.Allows t ∧ (IsKeyed n.root e → t.strings.Nodup)
  properties : ∀ t, n.Keeps (ask _ (.properties t)) fun r => ∀ ps, r = some ps → n.Lists ps
  display : ∀ t, n.Allows t → n.Keeps (ask _ (.display t)) fun _ => True

end Norm

section

variable {α β : Type} {n : Norm} {c : Context} {s : Store}

lemma Norm.keeps_iff {x : Infer α} {R : α → Prop} : n.Keeps x R ↔
    ∀ c s, c.Of n.root ∧ n.Kept s →
      (∀ a s', x.exec c s = (.ok a, s') → R a ∧ c.Of n.root ∧ n.Kept s') ∧
        ∀ e s', x.exec c s = (.error e, s') → n.Excuses e ∧ n.Kept s' :=
  triple_iff

lemma Norm.Keeps.bind {x : Infer α} {f : α → Infer β} {R : α → Prop} {R' : β → Prop}
    (hx : n.Keeps x R) (hf : ∀ a, R a → n.Keeps (f a) R') : n.Keeps (x >>= f) R' := by
  refine keeps_iff.2 fun c s hs => ?_
  obtain ⟨hok, herror⟩ := keeps_iff.1 hx c s hs
  rcases hout : x.exec c s with ⟨e | a, s'⟩
  · rw [exec_bind_error hout]
    exact ⟨fun _ _ h => (by cases h), fun _ _ h => by cases h; exact herror e s' hout⟩
  · rw [exec_bind_ok hout]
    obtain ⟨ha, hs'⟩ := hok a s' hout
    exact keeps_iff.1 (hf a ha) c s' hs'

lemma Norm.Keeps.mono {x : Infer α} {R R' : α → Prop} (hx : n.Keeps x R) (h : ∀ a, R a → R' a) :
    n.Keeps x R' := by
  refine keeps_iff.2 fun c s hs => ?_
  obtain ⟨hok, herror⟩ := keeps_iff.1 hx c s hs
  exact ⟨fun a s' ha => (hok a s' ha).imp_left (h a), herror⟩

lemma keeps_pure {a : α} {R : α → Prop} (h : R a) : n.Keeps (pure a) R :=
  Norm.keeps_iff.2 fun _ _ hs => ⟨fun _ _ heq => (by cases heq; exact ⟨h, hs⟩),
    fun _ _ heq => (by cases heq)⟩

/-- A failure leaves the store as it is. -/
lemma keeps_throw {e : Failure} (he : n.Excuses e) {R : α → Prop} :
    n.Keeps (throw e : Infer α) R :=
  Norm.keeps_iff.2 fun _ _ hs => ⟨fun _ _ heq => (by cases heq),
    fun _ _ heq => (by cases heq; exact ⟨he, hs.2⟩)⟩

lemma Norm.excuses_of_ne {e : Failure} (h : e ≠ .longNumber) : n.Excuses e := fun he => absurd he h

/-- What is known of the result of each run, for the items of a list. -/
lemma keeps_mapM {f : α → Infer β} {l : List α} {R : α → β → Prop}
    (h : ∀ a ∈ l, n.Keeps (f a) (R a)) : n.Keeps (l.mapM f) (List.Forall₂ R l) := by
  induction l with
  | nil =>
    rw [List.mapM_nil]
    exact keeps_pure .nil
  | cons a l ih =>
    have hrest := ih fun b hb => h b (List.mem_cons_of_mem _ hb)
    rw [List.mapM_cons]
    exact (h a List.mem_cons_self).bind fun b hb => hrest.bind fun bs hbs => keeps_pure (.cons hb hbs)

lemma forall_mem_of_forall₂ {l : List α} {bs : List β} {R : β → Prop}
    (h : List.Forall₂ (fun _ b => R b) l bs) : ∀ b ∈ bs, R b := by
  induction h with
  | nil => simp
  | cons hb _ ih => exact List.forall_mem_cons.2 ⟨hb, ih⟩

lemma map_eq_of_forall₂ {γ : Type} {f : α → γ} {g : β → γ} {l : List α} {bs : List β}
    (h : List.Forall₂ (fun a b => g b = f a) l bs) : bs.map g = l.map f := by
  induction h with
  | nil => rfl
  | cons hb _ ih => rw [List.map_cons, List.map_cons, hb, ih]

lemma keeps_mapM_all {f : α → Infer β} {l : List α} {R : β → Prop}
    (h : ∀ a ∈ l, n.Keeps (f a) R) : n.Keeps (l.mapM f) fun bs => ∀ b ∈ bs, R b :=
  (keeps_mapM h).mono fun _ hbs => forall_mem_of_forall₂ hbs

lemma keeps_filterM {f : α → Infer Bool} {l : List α} (h : ∀ a ∈ l, n.Keeps (f a) fun _ => True) :
    n.Keeps (l.filterM f) fun r => r ⊆ l := by
  have hfrom (l' found : List α) (hl' : l' ⊆ l) (hfound : found ⊆ l) :
      n.Keeps (l'.filterAuxM f found) fun r => r ⊆ l := by
    induction l' generalizing found with
    | nil =>
      rw [List.filterAuxM]
      exact keeps_pure hfound
    | cons a l' ih =>
      have ha : a ∈ l := hl' List.mem_cons_self
      have hrest : l' ⊆ l := List.subset_of_cons_subset hl'
      rw [List.filterAuxM]
      refine (h a ha).bind fun b _ => ?_
      cases b with
      | false => exact ih found hrest hfound
      | true => exact ih (a :: found) hrest (List.cons_subset.2 ⟨ha, hfound⟩)
  exact (hfrom l [] (List.Subset.refl l) (List.nil_subset l)).bind fun r hr =>
    keeps_pure fun a ha => hr (List.mem_reverse.1 ha)

lemma keeps_ofNumbers (r : Except Numeral.NotANumber α) :
    n.Keeps (Infer.ofNumbers r) fun a => r = .ok a := by
  cases r with
  | ok a => exact keeps_pure rfl
  | error e => exact keeps_throw (Norm.excuses_of_ne (by simp))

lemma keeps_read : n.Keeps read fun c => c.Of n.root :=
  Norm.keeps_iff.2 fun _ _ hs => ⟨fun _ _ heq => (by cases heq; exact ⟨hs.1, hs⟩),
    fun _ _ heq => (by cases heq)⟩

lemma Norm.Keeps.withReader {f : Context → Context} {x : Infer α} {R : α → Prop}
    (hf : ∀ c, c.Of n.root → (f c).Of n.root) (hx : n.Keeps x R) :
    n.Keeps (withReader f x) R := by
  refine keeps_iff.2 fun c s hs => ?_
  rw [exec_withReader]
  obtain ⟨hok, herror⟩ := keeps_iff.1 hx (f c) s ⟨hf c hs.1, hs.2⟩
  exact ⟨fun a s' ha => ⟨(hok a s' ha).1, hs.1, (hok a s' ha).2.2⟩, herror⟩

/-! ## Steps that use the store -/

lemma lists_mergeProperties {ps : List Property} (h : ∀ p ∈ ps, n.Allows p.type) :
    n.Lists (mergeProperties ps) := by
  have hmerges := merges_mergeProperties ps
  refine ⟨fun p hp => ?_, fun _ => ?_⟩
  · exact h p (List.mem_reverse.1 (List.mem_of_find?_eq_some (hmerges.last p hp)))
  · rw [hmerges.names]
    exact nodup_eraseDups _

lemma Norm.Kept.push (h : n.Kept s) (name : Option String) {shape : Shape} (hshape : n.Fits shape) :
    n.Kept { s with objects := s.objects.push ⟨name, shape⟩ } where
  shapes id shape' hid := by
    rw [Store.shape?_push] at hid
    split at hid
    · cases hid
      exact hshape
    · exact h.shapes id shape' hid
  aliases := h.aliases

lemma Norm.lists_nil : n.Lists [] := ⟨by simp, fun _ => by simp⟩

lemma Norm.Kept.change (h : n.Kept s) {id : Nat} {f : ObjectInfo → ObjectInfo}
    (hf : ∀ o, n.Fits o.shape → n.Fits (f o).shape) : n.Kept (s.change id f) where
  shapes i shape hi := by
    rw [Store.shape?_change] at hi
    split at hi
    case isFalse => exact h.shapes i shape hi
    case isTrue =>
      obtain ⟨o, ho, rfl⟩ := Option.map_eq_some_iff.1 hi
      exact hf o (h.shapes i o.shape (by rw [Store.shape?, ho, Option.map_some]))
  aliases := h.aliases

lemma keeps_newObject (name : Option String) {shape : Shape} (h : n.Fits shape) :
    n.Keeps (newObject name shape) n.Allows := by
  refine Norm.keeps_iff.2 fun c s hs => ⟨fun t s' hrun => ?_, fun _ _ hrun => (by cases hrun)⟩
  cases hrun
  exact ⟨trivial, hs.1, hs.2.push name h⟩

lemma keeps_modifyObject {id : Nat} {f : ObjectInfo → ObjectInfo}
    (hf : ∀ o, n.Fits o.shape → n.Fits (f o).shape) : n.Keeps (modifyObject id f) fun _ => True := by
  refine Norm.keeps_iff.2 fun c s hs => ⟨fun _ s' hrun => ?_, fun _ _ hrun => (by cases hrun)⟩
  cases hrun
  exact ⟨trivial, hs.1, hs.2.change hf⟩

lemma keeps_objectInfo (id : Nat) :
    n.Keeps (objectInfo id) fun o => n.Fits o.shape := by
  refine Norm.keeps_iff.2 fun c s hs => ⟨fun o s' hrun => ?_, fun _ _ hrun => (by cases hrun)⟩
  cases hrun
  refine ⟨?_, hs⟩
  rcases hid : s.objects[id]? with - | o
  · exact Norm.lists_nil
  · exact hs.2.shapes id o.shape (by rw [Store.shape?, hid, Option.map_some])

lemma keeps_symbolName? (t : Ty) : n.Keeps (symbolName? t) fun _ => True := by
  cases t with
  | object id => exact (keeps_objectInfo id).bind fun _ _ => keeps_pure trivial
  | _ => exact keeps_pure trivial

lemma Norm.Keeps.both {x : Infer α} {R R' : α → Prop} (hx : n.Keeps x R) (hx' : n.Keeps x R') :
    n.Keeps x fun a => R a ∧ R' a := by
  refine keeps_iff.2 fun c s hs => ?_
  obtain ⟨hok, herror⟩ := keeps_iff.1 hx c s hs
  obtain ⟨hok', -⟩ := keeps_iff.1 hx' c s hs
  exact ⟨fun a s' ha => ⟨⟨(hok a s' ha).1, (hok' a s' ha).1⟩, (hok a s' ha).2⟩, herror⟩

/-- What a run keeps, and what else is known of its results. -/
lemma Norm.Keeps.and {x : Infer α} {R R' : α → Prop} (hx : n.Keeps x R)
    (h : ∀ c s a s', x.exec c s = (.ok a, s') → R' a) :
    n.Keeps x fun a => R a ∧ R' a := by
  refine keeps_iff.2 fun c s hs => ?_
  obtain ⟨hok, herror⟩ := keeps_iff.1 hx c s hs
  exact ⟨fun a s' ha => ⟨⟨(hok a s' ha).1, h c s a s' ha⟩, (hok a s' ha).2⟩, herror⟩

end

/-! ## Unions and display -/

section

variable {n : Norm} {ask : Answers} (hask : n.Answers ask)

include hask

lemma keeps_unionKey {t : Ty} (h : n.Allows t) : n.Keeps (unionKey ask t) fun _ => True := by
  cases t with
  | object id => exact keeps_pure trivial
  | _ => exact (hask.display _ h).bind fun _ _ => keeps_pure trivial

lemma keeps_makeUnion {types : List Ty} (h : ∀ t ∈ types, n.Allows t) :
    n.Keeps (makeUnion ask types) n.Allows := by
  have hmembers : ∀ m ∈ types.flatMap Ty.alternatives, m.IsMember (NumberOf n.root) := by
    intro m hm
    obtain ⟨t, ht, hm⟩ := List.mem_flatMap.1 hm
    exact (h t ht).isMember hm
  have hkeys : n.Keeps ((types.flatMap Ty.alternatives).mapM fun t => do
      return (← unionKey ask t, t)) fun _ => True :=
    (keeps_mapM fun t ht => (keeps_unionKey hask (hmembers t ht).2).bind fun _ _ =>
      keeps_pure (R := fun _ => True) trivial).mono fun _ _ => trivial
  have hunion : n.Keeps (makeUnion ask types) fun _ => True :=
    hkeys.bind fun _ _ => keeps_pure trivial
  refine (hunion.and fun c s u s' hu => ?_).mono fun _ h => h.2
  obtain ⟨members, hsublist, rfl⟩ := exists_sublist_of_makeUnion hu
  exact Ty.isNormal_ofAlternatives fun m hm => hmembers m (hsublist.subset hm)

lemma keeps_widen {t : Ty} (h : n.Allows t) : n.Keeps (widen ask t) n.Allows := by
  cases t with
  | union members =>
    refine keeps_makeUnion hask fun m hm => ?_
    obtain ⟨t, ht, rfl⟩ := List.mem_map.1 hm
    exact ((Ty.isNormal_union.1 h).2 t ht).2.2.widenLiteral
  | _ => exact keeps_pure h.widenLiteral

lemma keeps_filterUnion (test : Ty → Bool) {t : Ty} (h : n.Allows t) :
    n.Keeps (filterUnion ask test t) n.Allows := by
  cases t with
  | union members =>
    exact keeps_makeUnion hask fun m hm =>
      ((Ty.isNormal_union.1 h).2 m (List.mem_of_mem_filter hm)).2.2
  | _ => exact keeps_pure h

lemma keeps_withUndefined {t : Ty} (h : n.Allows t) :
    n.Keeps (withUndefined ask t) n.Allows :=
  keeps_makeUnion hask (by simpa using ⟨h, trivial⟩)

lemma keeps_presentType {p : Property} (h : n.Allows p.type) :
    n.Keeps (presentType ask p) n.Allows := by
  unfold presentType
  split
  · exact keeps_filterUnion hask _ h
  · exact keeps_pure h

lemma keeps_elementType? {t : Ty} (h : n.Allows t) :
    n.Keeps (elementType? ask t) fun r => ∀ e ∈ r, n.Allows e := by
  unfold elementType?
  split
  · exact keeps_pure (by simpa using h)
  · exact keeps_pure (by simp [Ty.any])
  · exact (keeps_makeUnion hask (Ty.isNormal_tuple.1 h)).bind fun u hu =>
      keeps_pure (by simpa using hu)
  · exact keeps_pure (by simp)

lemma keeps_propertiesOf (t : Ty) : n.Keeps (propertiesOf ask t) n.Lists := by
  refine (hask.properties t).bind fun r hr => keeps_pure ?_
  cases r with
  | none => exact Norm.lists_nil
  | some ps => exact hr ps rfl

lemma keeps_displayAll {ts : List Ty} (h : ∀ t ∈ ts, n.Allows t) :
    n.Keeps (ts.mapM fun t => ask _ (.display t)) fun _ => True :=
  (keeps_mapM fun t ht => hask.display t (h t ht)).mono fun _ _ => trivial

lemma keeps_displayProperties {ps : List Property} (h : n.Lists ps) :
    n.Keeps (displayProperties ask ps) fun _ => True := by
  have hmember : ∀ p ∈ ps, n.Keeps (do
      let type ← ask _ (.display (← presentType ask p))
      return p.name ++ (if p.optional then "?" else "") ++ ": " ++ type ++ ";") fun _ => True :=
    fun p hp => (keeps_presentType hask (h.1 p hp)).bind fun t ht =>
      (hask.display t ht).bind fun _ _ => keeps_pure trivial
  exact (keeps_mapM hmember).bind fun _ _ => keeps_pure trivial

omit hask in
/-- A number of the file is displayed unless it is too long. -/
lemma keeps_numberText {v : Numeral} (h : NumberOf n.root v) :
    n.Keeps (numberText v) fun _ => True := by
  refine keeps_read.bind fun x _ => ?_
  split
  · rename_i hlong
    exact keeps_throw fun _ => h.longNumber (Bool.and_eq_true_iff.1 hlong).2
  · exact keeps_pure trivial

lemma keeps_displayText {t : Ty} (h : n.Allows t) : n.Keeps (displayText ask t) fun _ => True := by
  unfold displayText
  split
  case h_3 => exact keeps_numberText h
  case h_6 members =>
    have hmembers : ∀ m ∈ members, n.Allows m := fun m hm => ((Ty.isNormal_union.1 h).2 m hm).2.2
    exact (keeps_displayAll hask hmembers).bind fun _ _ => keeps_pure trivial
  case h_7 element => exact (hask.display element h).bind fun _ _ => keeps_pure trivial
  case h_8 elements =>
    exact (keeps_displayAll hask (Ty.isNormal_tuple.1 h)).bind fun _ _ => keeps_pure trivial
  case h_9 value => exact (hask.display value h).bind fun _ _ => keeps_pure trivial
  case h_10 id =>
    refine (keeps_objectInfo id).bind fun o _ => ?_
    split
    · exact keeps_pure trivial
    · refine keeps_read.bind fun c _ => ?_
      split
      · exact keeps_pure trivial
      · exact ((keeps_propertiesOf hask _).bind fun ps hps =>
          keeps_displayProperties hask hps).withReader fun c hc => ⟨hc.aliases, hc.enums⟩
  case h_11 inner => exact (hask.display inner h).bind fun _ _ => keeps_pure trivial
  case h_13 args _ =>
    exact (keeps_displayAll hask ((Ty.isNormal_named _).1 h)).bind fun _ _ => keeps_pure trivial
  all_goals exact keeps_pure trivial

end

end RouteScribe.Typing
