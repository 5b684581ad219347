import RouteScribe.Proofs.Route.Termination
import RouteScribe.Proofs.Table
import RouteScribe.Proofs.Typing.Moments
import RouteScribe.Proofs.Typing.Unions

/-!
# Properties of derived types

`Pick` and `Omit` select properties of another type by their names, and an interface adds its own
properties to those of the types that it extends.  Both ask the other types for their properties when
they are worked out themselves, and get what these have at that moment.

The result is complete unless the other type is being worked out at that moment
(`properties_of_derived`).  A selection from an interface inside its own declaration is asked for in
just such a moment, and stays empty (`selection_not_complete`).
-/

namespace RouteScribe.Typing

open Infer
open Source (Node Cursor)

/-! ## Short lists -/

section

variable {α β : Type} {c : Context} {s s' : Store} {f : α → Infer β} {a b : α} {r : List β}

lemma exists_of_mapM_singleton (h : ([a].mapM f).exec c s = (.ok r, s')) :
    ∃ x, (f a).exec c s = (.ok x, s') ∧ r = [x] := by
  rw [List.mapM_cons, List.mapM_nil] at h
  obtain ⟨x, s₁, hx, h⟩ := exec_bind_eq_ok.1 h
  cases h
  exact ⟨x, hx, rfl⟩

lemma exists_of_mapM_pair (h : ([a, b].mapM f).exec c s = (.ok r, s')) :
    ∃ x s₁ y, (f a).exec c s = (.ok x, s₁) ∧ (f b).exec c s₁ = (.ok y, s') ∧ r = [x, y] := by
  rw [List.mapM_cons] at h
  obtain ⟨x, s₁, hx, h⟩ := exec_bind_eq_ok.1 h
  obtain ⟨ys, s₂, hys, h⟩ := exec_bind_eq_ok.1 h
  obtain ⟨y, hy, rfl⟩ := exists_of_mapM_singleton hys
  cases h
  exact ⟨x, s₁, y, hx, hy, rfl⟩

end

/-! ## Keys -/

/-- The strings among the values of a type. -/
def Ty.strings (t : Ty) : List String := t.alternatives.filterMap Ty.stringValue?

/-- A type expression that is a string literal, or a union of string literals, and the strings. -/
inductive Spells : Cursor → List String → Prop
  | literal {c value : Cursor} {name : String} : c.kind = .literalType →
    c.named.head? = some value → value.kind = .string → value.stringValue? = some name →
    Spells c [name]
  | parenthesized {c inner : Cursor} {names : List String} : c.kind = .parenthesizedType →
    c.named.head? = some inner → Spells inner names → Spells c names
  | alone {c inner : Cursor} {names : List String} : c.kind = .unionType →
    c.named = [inner] → Spells inner names → Spells c names
  | union {c left right : Cursor} {names names' : List String} : c.kind = .unionType →
    c.named = [left, right] → Spells left names → Spells right names' → Spells c (names ++ names')

/-- The string literal with a value. -/
def textType (name : String) : Ty := .literal (.string name)

/-- A type whose values are these strings. -/
structure Ty.IsSpelled (t : Ty) (names : List String) : Prop where
  literals : ∀ m ∈ t.alternatives, ∃ name ∈ names, m = textType name
  all : ∀ name ∈ names, textType name ∈ t.alternatives

section

variable {c : Context} {s s' : Store} {names names' : List String}

lemma Ty.IsSpelled.mem_strings {t : Ty} (h : t.IsSpelled names) (name : String) :
    name ∈ t.strings ↔ name ∈ names := by
  rw [strings, List.mem_filterMap]
  constructor
  · rintro ⟨m, hm, hvalue⟩
    obtain ⟨name', hname', rfl⟩ := h.literals m hm
    cases hvalue
    exact hname'
  · exact fun hname => ⟨textType name, h.all name hname, rfl⟩

lemma Spells.ne_nil {e : Cursor} (h : Spells e names) : names ≠ [] := by
  induction h with
  | literal => simp
  | parenthesized _ _ _ ih => exact ih
  | alone _ _ _ ih => exact ih
  | union _ _ _ _ ih => simp [ih]

/-- Each key has a first item. -/
lemma exists_mem_firstOfKeys {κ α : Type} [BEq κ] [LawfulBEq κ] {seen : List κ}
    {entries : List (κ × α)} {e : κ × α} (he : e ∈ entries) (hseen : e.1 ∉ seen) :
    ∃ a ∈ firstOfKeys seen entries, (e.1, a) ∈ entries := by
  induction entries generalizing seen with
  | nil => cases he
  | cons e' rest ih =>
    obtain ⟨k, a⟩ := e'
    have hrest (seen : List κ) (he : e ∈ rest) (hseen : e.1 ∉ seen) :
        ∃ a' ∈ firstOfKeys seen rest, (e.1, a') ∈ (k, a) :: rest := by
      obtain ⟨a', ha', hmem⟩ := ih he hseen
      exact ⟨a', ha', List.mem_cons_of_mem _ hmem⟩
    rw [firstOfKeys]
    split
    case isTrue hk =>
      refine hrest seen ((List.mem_cons.1 he).resolve_left fun heq => ?_) hseen
      rw [heq] at hseen
      exact hseen (List.contains_iff_mem.1 hk)
    case isFalse hk =>
      by_cases hkey : e.1 = k
      · exact ⟨a, List.mem_cons_self, by rw [hkey]; exact List.mem_cons_self⟩
      · obtain ⟨a', ha', hmem⟩ := hrest (k :: seen)
          ((List.mem_cons.1 he).resolve_left fun heq => hkey (by rw [heq])) (by simp [hkey, hseen])
        exact ⟨a', List.mem_cons_of_mem _ ha', hmem⟩

lemma alternatives_ofAlternatives {members : List Ty} (hne : members ≠ [])
    (h : ∀ m ∈ members, ∃ name, m = textType name) :
    (Ty.ofAlternatives members).alternatives = members := by
  have hany : members.any Ty.isAny = false := by
    rw [List.any_eq_false]
    intro m hm
    obtain ⟨name, rfl⟩ := h m hm
    exact Bool.false_ne_true
  match members with
  | [] => exact absurd rfl hne
  | [m] =>
    obtain ⟨name, rfl⟩ := h m List.mem_cons_self
    rfl
  | m :: m' :: rest =>
    simp only [Ty.ofAlternatives, hany]
    rfl

/-- The key of a string literal is how it is displayed. -/
lemma key_of_keyed {d : Nat} {ts : List Ty} {keyed : List (UnionKey × Ty)} {k : UnionKey}
    {name : String} (hk : (k, textType name) ∈ keyed)
    (h : (ts.mapM fun t => do return (← unionKey (answer d) t, t)).exec c s = (.ok keyed, s')) :
    k = .display ("\"" ++ name ++ "\"") := by
  induction ts generalizing s keyed with
  | nil =>
    rw [List.mapM_nil, exec_pure] at h
    cases h
    cases hk
  | cons t ts ih =>
    rw [List.mapM_cons, exec_bind_eq_ok] at h
    obtain ⟨e, s₁, he, hrest⟩ := h
    obtain ⟨k', s₂, hkey, hpure⟩ := exec_bind_eq_ok.1 he
    obtain ⟨rest, s₃, hrest, hcons⟩ := exec_bind_eq_ok.1 hrest
    cases hpure
    cases hcons
    rcases List.mem_cons.1 hk with heq | hk
    · obtain ⟨rfl, rfl⟩ := Prod.mk.inj heq
      obtain ⟨text, s₄, htext, hpure⟩ := exec_bind_eq_ok.1 hkey
      cases hpure
      cases d with
      | zero => cases htext
      | succ d => cases htext; rfl
    · exact ih hk hrest

lemma isSpelled_of_makeUnion {d : Nat} {ts : List Ty} {u : Ty} (hne : names ≠ [])
    (hliterals : ∀ m ∈ ts.flatMap Ty.alternatives, ∃ name ∈ names, m = textType name)
    (hall : ∀ name ∈ names, textType name ∈ ts.flatMap Ty.alternatives)
    (h : (makeUnion (answer d) ts).exec c s = (.ok u, s')) : u.IsSpelled names := by
  obtain ⟨keyed, s₁, hkeyed, hpure⟩ := exec_bind_eq_ok.1 h
  cases hpure
  have hmap : keyed.map (·.2) = ts.flatMap Ty.alternatives := map_snd_of_keyed hkeyed
  have hmembers : ∀ m ∈ firstOfKeys [] keyed, ∃ name ∈ names, m = textType name := fun m hm =>
    hliterals m (hmap ▸ (firstOfKeys_sublist [] keyed).subset hm)
  -- The first literal with the key of a literal is that literal.
  have hfirst : ∀ name ∈ names, textType name ∈ firstOfKeys [] keyed := by
    intro name hname
    obtain ⟨⟨k, t⟩, hmem, rfl⟩ := List.mem_map.1 (hmap ▸ hall name hname)
    obtain ⟨m, hm, hkm⟩ := exists_mem_firstOfKeys hmem (List.not_mem_nil (a := k))
    obtain ⟨name', -, rfl⟩ := hmembers m hm
    have hkeys : UnionKey.display ("\"" ++ name ++ "\"") = .display ("\"" ++ name' ++ "\"") :=
      (key_of_keyed hmem hkeyed).symm.trans (key_of_keyed hkm hkeyed)
    have hnames : name = name' := by simpa using hkeys
    rwa [hnames]
  have hnonempty : firstOfKeys [] keyed ≠ [] := by
    obtain ⟨name, hname⟩ := List.exists_mem_of_ne_nil _ hne
    exact List.ne_nil_of_mem (hfirst name hname)
  have halternatives := alternatives_ofAlternatives hnonempty fun m hm =>
    (hmembers m hm).imp fun _ h => h.2
  constructor
  · rwa [halternatives]
  · rwa [halternatives]

/-- A union of string literals denotes what it spells. -/
lemma Spells.isSpelled {e : Cursor} (h : Spells e names) {d : Nat} {t : Ty}
    (hrun : (answer d _ (.denoted e)).exec c s = (.ok t, s')) : t.IsSpelled names := by
  induction h generalizing d t s s' with
  | literal hkind hvalue hstring hname =>
    cases d with
    | zero => cases hrun
    | succ d =>
      simp only [answer, answerWith, denotation, hkind, hvalue, literalType, hstring, hname] at hrun
      cases hrun
      exact ⟨by simp [Ty.alternatives, textType], by simp [Ty.alternatives, textType]⟩
  | parenthesized hkind hinner _ ih =>
    cases d with
    | zero => cases hrun
    | succ d =>
      simp only [answer, answerWith, denotation, hkind, hinner, denotedBy] at hrun
      exact ih hrun
  | alone hkind hnamed hinner ih =>
    cases d with
    | zero => cases hrun
    | succ d =>
      simp only [answer, answerWith, denotation, hkind, hnamed, denotedAll] at hrun
      obtain ⟨ts, s₁, hts, hunion⟩ := exec_bind_eq_ok.1 hrun
      obtain ⟨t', ht', rfl⟩ := exists_of_mapM_singleton hts
      have hspelled := ih ht'
      refine isSpelled_of_makeUnion hinner.ne_nil ?_ ?_ hunion
      · simpa using hspelled.literals
      · simpa using hspelled.all
  | union hkind hnamed hleft hright ihleft ihright =>
    cases d with
    | zero => cases hrun
    | succ d =>
      simp only [answer, answerWith, denotation, hkind, hnamed, denotedAll] at hrun
      obtain ⟨ts, s₁, hts, hunion⟩ := exec_bind_eq_ok.1 hrun
      obtain ⟨l, s₂, r, hl, hr, rfl⟩ := exists_of_mapM_pair hts
      have hspelledLeft := ihleft hl
      have hspelledRight := ihright hr
      refine isSpelled_of_makeUnion (by simp [hleft.ne_nil]) (fun m hm => ?_)
        (fun name hname => ?_) hunion
      · simp only [List.flatMap_cons, List.flatMap_nil, List.append_nil, List.mem_append] at hm ⊢
        rcases hm with hm | hm
        · obtain ⟨name, hname, heq⟩ := hspelledLeft.literals m hm
          exact ⟨name, .inl hname, heq⟩
        · obtain ⟨name, hname, heq⟩ := hspelledRight.literals m hm
          exact ⟨name, .inr hname, heq⟩
      · simp only [List.flatMap_cons, List.flatMap_nil, List.append_nil, List.mem_append] at hname ⊢
        exact hname.imp (hspelledLeft.all name) (hspelledRight.all name)

end

/-! ## Selections -/

/-- A type expression `Pick<T, K>`, or `Omit<T, K>`: the properties of `T` that are kept are those
with names among `K`, or those with other names. -/
structure Selection (keep : Bool) (e source keys : Cursor) : Prop where
  isGeneric : e.kind = .genericType
  hasName : (e.child? .name).map Cursor.text = some (if keep then "Pick" else "Omit")
  hasArguments : (e.child? .typeArguments).map Cursor.named = some [source, keys]

section

variable {root : Node} {opened : List Nat} {c : Context} {s s' : Store} {keep : Bool} {d : Nat}

lemma Selection.within {e source keys : Cursor} (he : Selection keep e source keys)
    (h : Source.Within root e) : Source.Within root source ∧ Source.Within root keys := by
  obtain ⟨args, hargs, hnamed⟩ := Option.map_eq_some_iff.1 he.hasArguments
  exact ⟨(h.child hargs).named (by simp [hnamed]), (h.child hargs).named (by simp [hnamed])⟩

/-- The types that are given to a selection, and the selection. -/
lemma Selection.exists_runs {e source keys : Cursor} (he : Selection keep e source keys) {t : Ty}
    (h : (answer (d + 1) _ (.denoted e)).exec c s = (.ok t, s')) :
    ∃ sourceType s₁ keysType s₂, (answer d _ (.denoted source)).exec c s = (.ok sourceType, s₁) ∧
      (answer d _ (.denoted keys)).exec c s₁ = (.ok keysType, s₂) ∧
      (selectedType (answer d) keep sourceType keysType).exec c s₂ = (.ok t, s') := by
  obtain ⟨args, hargs, hnamed⟩ := Option.map_eq_some_iff.1 he.hasArguments
  have hgeneric : (genericType (answer d) e).exec c s = (.ok t, s') := by
    have hkind := he.isGeneric
    simp only [answer, answerWith, denotation, hkind] at h
    exact h
  simp only [genericType, he.hasName, Option.getD_some, typeArguments, hargs, hnamed,
    denotedAll] at hgeneric
  obtain ⟨types, s₂, htypes, hselected⟩ := exec_bind_eq_ok.1 hgeneric
  obtain ⟨sourceType, s₁, keysType, hsource, hkeys, rfl⟩ := exists_of_mapM_pair htypes
  refine ⟨sourceType, s₁, keysType, s₂, hsource, hkeys, ?_⟩
  cases keep with
  | true => exact hselected
  | false => exact hselected

lemma exists_of_selectedType (hroot : root.Legible) {source keys t : Ty} (hc : c.Within root)
    (hs : Working root opened s)
    (h : (selectedType (answer d) keep source keys).exec c s = (.ok t, s')) :
    ∃ id properties, t = .object id ∧ Working root opened s' ∧
      Contributes opened s s' properties source ∧
      s'.Knows id (properties.filter fun p => keys.strings.contains p.name == keep) ∧
      id ∉ opened := by
  obtain ⟨properties, s₁, hproperties, hnew⟩ := exec_bind_eq_ok.1 h
  obtain ⟨hlater, hcontributes⟩ := contributes_of_propertiesOf hroot hc hs hproperties
  have hs₁ : Working root opened s₁ := hs.later hlater
  cases hnew
  refine ⟨s₁.objects.size, properties, rfl, hs₁.later (.create .refl trivial), ?_,
    Store.knows_push, fun hid => ?_⟩
  · exact hcontributes.keeps fun _ _ hknown => hknown.push
  · exact absurd ((hs₁.invariant hroot).2.2 _ hid).lt_size (lt_irrefl _)

/-- What is known of the type `t` that a selection denotes, from the store `s` to the store `s'`: it has,
ever after, the selected ones among the properties that its source contributes, in their order. -/
def Selects (root : Node) (opened : List Nat) (d : Nat) (c : Context) (keep : Bool)
    (source keys : Cursor) (s : Store) (t : Ty) (s' : Store) : Prop :=
  ∃ sourceType s₁ keysType s₂, (answer d _ (.denoted source)).exec c s = (.ok sourceType, s₁) ∧
    (answer d _ (.denoted keys)).exec c s₁ = (.ok keysType, s₂) ∧
    (∀ names, Spells keys names → ∀ name, name ∈ Ty.strings keysType ↔ name ∈ names) ∧
    ∃ id properties, t = .object id ∧ ∀ s'', Later root opened s' s'' →
      Contributes opened s₂ s'' properties sourceType ∧
      s''.Knows id (properties.filter fun p => (Ty.strings keysType).contains p.name == keep)

lemma Selection.selects (hroot : root.Legible) (hc : c.Within root) (hs : Working root opened s)
    {e source keys : Cursor} (hwithin : Source.Within root e) (he : Selection keep e source keys)
    {t : Ty} (h : (answer (d + 1) _ (.denoted e)).exec c s = (.ok t, s')) :
    Selects root opened d c keep source keys s t s' := by
  obtain ⟨sourceType, s₁, keysType, s₂, hsourceType, hkeysType, hselected⟩ := he.exists_runs h
  obtain ⟨hsource, hkeys⟩ := he.within hwithin
  have hs₂ : Working root opened s₂ := (hs.later (.query (q := .denoted source) .refl hsource hc
    hsourceType)).later (.query (q := .denoted keys) .refl hkeys hc hkeysType)
  obtain ⟨id, properties, rfl, hs', hcontributes, hknown, hid⟩ :=
    exists_of_selectedType hroot hc hs₂ hselected
  have hwithin : s'.Within root := (hs'.invariant hroot).1
  exact ⟨sourceType, s₁, keysType, s₂, hsourceType, hkeysType,
    fun names hnames => (hnames.isSpelled hkeysType).mem_strings, id, properties, rfl,
    fun s'' hlater => ⟨hcontributes.later hroot (List.Subset.refl _) hwithin hlater,
      hlater.knows hroot hwithin hid hknown⟩⟩

end

/-! ## Interfaces -/

/-- The types that an interface extends, left to right. -/
def basesOf (declaration : Cursor) : List Cursor :=
  (declaration.named.filter (·.kind == .extendsTypeClause)).flatMap Cursor.named

/-- The names of the properties that members between braces declare, and whether these are optional. -/
def declaredNames (body : Cursor) : List (String × Bool) :=
  (body.named.filter fun m => m.kind == .propertySignature || m.kind == .methodSignature).flatMap
    fun m => (((m.child? .name).bind Cursor.memberKey?).map fun name =>
      (name, m.node.hasToken "?")).toList

/-- Properties together: a repeated name has its first place and its last property. -/
structure Merges (properties all : List Property) : Prop where
  names : properties.map (·.name) = (all.map (·.name)).eraseDups
  last : ∀ p ∈ properties, all.reverse.find? (·.name == p.name) = some p

lemma merges_mergeProperties (all : List Property) : Merges (mergeProperties all) all := by
  have hkeyed : ∀ e ∈ Table.ofList (all.map fun p => (p.name, p)),
      e.1 = e.2.name ∧ all.reverse.find? (·.name == e.1) = some e.2 := by
    intro e he
    have hfind := Table.mem_ofList.1 he
    rw [← List.map_reverse, List.find?_map, Option.map_eq_some_iff] at hfind
    obtain ⟨p, hp, rfl⟩ := hfind
    exact ⟨rfl, hp⟩
  constructor
  · have hnames : (mergeProperties all).map (·.name) =
        Table.names (Table.ofList (all.map fun p => (p.name, p))) := by
      rw [mergeProperties, List.map_map, Table.names]
      exact List.map_congr_left fun e he => (hkeyed e he).1.symm
    rw [hnames, Table.names_ofList, Table.names, List.map_map]
    rfl
  · intro p hp
    obtain ⟨e, he, rfl⟩ := List.mem_map.1 hp
    obtain ⟨hname, hfind⟩ := hkeyed e he
    rwa [← hname]

section

variable {α β : Type} {c : Context} {s s' : Store} {f : α → Infer β} {l : List α} {bs : List β}

/-- What each run gives, if all later runs keep it. -/
lemma forall₂_of_mapM {I : Store → Prop} {P : α → β → Store → Prop}
    (hstep : ∀ a ∈ l, ∀ s b s', I s → (f a).exec c s = (.ok b, s') →
      I s' ∧ P a b s' ∧ ∀ a' b', P a' b' s → P a' b' s')
    (hs : I s) (h : (l.mapM f).exec c s = (.ok bs, s')) :
    I s' ∧ List.Forall₂ (fun a b => P a b s') l bs ∧ ∀ a' b', P a' b' s → P a' b' s' := by
  induction l generalizing s bs with
  | nil =>
    rw [List.mapM_nil, exec_pure] at h
    cases h
    exact ⟨hs, .nil, fun _ _ h => h⟩
  | cons a l ih =>
    rw [List.mapM_cons] at h
    obtain ⟨b, s₁, hb, h⟩ := exec_bind_eq_ok.1 h
    obtain ⟨rest, s₂, hrest, hpure⟩ := exec_bind_eq_ok.1 h
    cases hpure
    obtain ⟨hs₁, hfirst, hkeep⟩ := hstep a List.mem_cons_self s b s₁ hs hb
    obtain ⟨hs', hall, hkeep'⟩ := ih (fun a ha => hstep a (List.mem_cons_of_mem _ ha)) hs₁ hrest
    exact ⟨hs', .cons (hkeep' a b hfirst) hall, fun a' b' h => hkeep' a' b' (hkeep a' b' h)⟩

/-- The names that members declare are those of their properties. -/
lemma names_of_declaredProperties {ask : Answers} {body : Cursor} {own : List Property}
    (h : (declaredProperties ask body).exec c s = (.ok own, s')) :
    own.map (fun p => (p.name, p.optional)) = declaredNames body := by
  obtain ⟨lists, s₁, hlists, hpure⟩ := exec_bind_eq_ok.1 h
  cases hpure
  have hall := (forall₂_of_mapM (I := fun _ => True)
    (P := fun m properties _ => properties.map (fun p => (p.name, p.optional)) =
      (((m.child? .name).bind Cursor.memberKey?).map fun name =>
        (name, m.node.hasToken "?")).toList) (fun m _ s properties s' _ hrun => ?member)
    trivial hlists).2.1
  case member =>
    refine ⟨trivial, ?_, fun _ _ h => h⟩
    rcases hkey : (m.child? .name).bind Cursor.memberKey? with - | name
    · rw [hkey] at hrun
      cases hrun
      rfl
    · rw [hkey] at hrun
      -- Whatever the type is found to be, the property has this name and this mark.
      have hlast {x : Infer Ty} {s : Store} (hrun : (do
          let type ← x
          return [(⟨name, m.node.hasToken "?", type⟩ : Property)]).exec c s = (.ok properties, s')) :
          properties.map (fun p => (p.name, p.optional)) = [(name, m.node.hasToken "?")] := by
        obtain ⟨type, s₁, -, hpure⟩ := exec_bind_eq_ok.1 hrun
        cases hpure
        rfl
      dsimp only at hrun
      split at hrun
      all_goals
        obtain ⟨type, s₁, -, hrun⟩ := exec_bind_eq_ok.1 hrun
        split at hrun
        · exact hlast hrun
        · exact hlast hrun
  rw [declaredNames]
  generalize body.named.filter _ = members at hall
  clear hlists h
  induction hall with
  | nil => rfl
  | cons hfirst _ ih => rw [List.flatten_cons, List.map_append, hfirst, ih, List.flatMap_cons]

end

/-! ## What is inherited -/

/-- What a type that is extended contributes: it is denoted at a moment when the properties of the
interface are being worked out, and is asked for its properties then. -/
def Inherits (root : Node) (opened : List Nat) (d : Nat) (c : Context) (base : Cursor)
    (properties : List Property) (s : Store) : Prop :=
  ∃ t s₀ s₁, Working root opened s₀ ∧ (answer d _ (.denoted base)).exec c s₀ = (.ok t, s₁) ∧
    Contributes opened s₁ s properties t

/-- What is known of the properties `r` that an interface gives: it has them ever after, and they are
what it inherits, left to right, and then its own. -/
def Extends (root : Node) (opened : List Nat) (d : Nat) (c : Context) (declaration : Cursor) (id : Nat)
    (r : Option (List Property)) (s' : Store) : Prop :=
  ∃ properties inherited own, r = some properties ∧
    own.map (fun p => (p.name, p.optional)) = ((declaration.child? .body).map declaredNames).getD [] ∧
    Merges properties (inherited.flatten ++ own) ∧
    ∀ s'', Later root opened s' s'' → s''.Knows id properties ∧
      List.Forall₂ (fun base list => Inherits root (id :: opened) d c base list s'')
        (basesOf declaration) inherited

section

variable {root : Node} {opened : List Nat} {c : Context} {s s' : Store} {d id : Nat}
  {declaration base : Cursor} {properties : List Property}

lemma Inherits.later (hroot : root.Legible) {opened' : List Nat} (hopened : opened' ⊆ opened)
    (h : Inherits root opened d c base properties s) (hs : s.Within root)
    (hlater : Later root opened' s s') : Inherits root opened d c base properties s' := by
  obtain ⟨t, s₀, s₁, hmoment, hbase, hcontributes⟩ := h
  exact ⟨t, s₀, s₁, hmoment, hbase, hcontributes.later hroot hopened hs hlater⟩

lemma Inherits.keeps (h : Inherits root opened d c base properties s) (hkeeps : s.Keeps s') :
    Inherits root opened d c base properties s' := by
  obtain ⟨t, s₀, s₁, hmoment, hbase, hcontributes⟩ := h
  exact ⟨t, s₀, s₁, hmoment, hbase, hcontributes.keeps hkeeps⟩

lemma Inherits.finished {properties' : List Property} (hid : id ∈ opened)
    (h : Inherits root opened d c base properties s) :
    Inherits root opened d c base properties (s.finished id properties') := by
  obtain ⟨t, s₀, s₁, hmoment, hbase, hcontributes⟩ := h
  exact ⟨t, s₀, s₁, hmoment, hbase, hcontributes.finished hid⟩

lemma within_of_mem_basesOf (h : Source.Within root declaration) (hbase : base ∈ basesOf declaration) :
    Source.Within root base := by
  obtain ⟨clause, hclause, hbase⟩ := List.mem_flatMap.1 hbase
  exact (h.named (List.mem_of_mem_filter hclause)).named hbase

/-- One extended type after the other is denoted and gives its properties. -/
lemma inherits_of_mapM (hroot : root.Legible) (hc : c.Within root)
    (hdeclaration : Source.Within root declaration) {inherited : List (List Property)}
    (hs : Working root opened s) (h : ((basesOf declaration).mapM fun base => do
      propertiesOf (answer d) (← answer d _ (.denoted base))).exec c s = (.ok inherited, s')) :
    Working root opened s' ∧
      List.Forall₂ (fun base list => Inherits root opened d c base list s')
        (basesOf declaration) inherited := by
  have hall := forall₂_of_mapM (I := Working root opened)
    (P := fun base list s => Inherits root opened d c base list s)
    (fun base hbase s list s' hs hrun => ?base) hs h
  case base =>
    obtain ⟨t, s₁, ht, hrun⟩ := exec_bind_eq_ok.1 hrun
    have hwithin := within_of_mem_basesOf hdeclaration hbase
    have hfirst : Later root [] s s₁ := .query (q := .denoted base) .refl hwithin hc ht
    obtain ⟨hsecond, hcontributes⟩ :=
      contributes_of_propertiesOf hroot hc (hs.later hfirst) hrun
    have hlater : Later root [] s s' := hfirst.trans hsecond
    exact ⟨hs.later hlater, ⟨t, s, s₁, hs, ht, hcontributes⟩, fun base' list' h =>
      h.later hroot (List.nil_subset _) (hs.invariant hroot).1 hlater⟩
  exact ⟨hall.1, hall.2.1⟩

/-- The properties of an interface: what it inherits, left to right, and then its own. -/
lemma exists_of_interfaceProperties (hroot : root.Legible) (hc : c.Within root)
    (hdeclaration : Source.Within root declaration) (hs : Working root opened s)
    (h : (interfaceProperties (answer d) declaration).exec c s = (.ok properties, s')) :
    ∃ inherited own, s'.Within root ∧
      List.Forall₂ (fun base list => Inherits root opened d c base list s')
        (basesOf declaration) inherited ∧
      own.map (fun p => (p.name, p.optional)) = ((declaration.child? .body).map declaredNames).getD [] ∧
      Merges properties (inherited.flatten ++ own) := by
  obtain ⟨inherited, s₁, hinherited, h⟩ := exec_bind_eq_ok.1 h
  obtain ⟨hs₁, hall⟩ := inherits_of_mapM hroot hc hdeclaration hs hinherited
  rcases hbody : declaration.child? .body with - | body
  · simp only [hbody] at h
    obtain ⟨own, s₂, hown, hpure⟩ := exec_bind_eq_ok.1 h
    cases hown
    cases hpure
    exact ⟨inherited, [], (hs₁.invariant hroot).1, hall, rfl, merges_mergeProperties _⟩
  · simp only [hbody] at h
    obtain ⟨own, s₂, hown, hpure⟩ := exec_bind_eq_ok.1 h
    cases hpure
    have hsound := sound_declaredProperties (w := ⟨root, s₁, fun _ => True⟩)
      (fun _ q hq => sound_answer hroot ⟨trivial, trivial⟩ d q hq) (hdeclaration.child hbody)
    have hholds := hsound.holds hc (hs₁.invariant hroot).1 hown
    exact ⟨inherited, own, hholds.within, hall.imp fun _ _ h => h.keeps hholds.keeps,
      names_of_declaredProperties hown, merges_mergeProperties _⟩

lemma Extends.of_properties (hroot : root.Legible) (hc : c.Within root) (hs : Working root opened s)
    (hshape : s.shape? id = some (.interface declaration)) {r : Option (List Property)}
    (h : (answer (d + 1) _ (.properties (.object id))).exec c s = (.ok r, s')) :
    Extends root opened d c declaration id r s' := by
  obtain ⟨o, ho, hdeclaration⟩ := Option.map_eq_some_iff.1 hshape
  have hwithin : o.shape.Within root :=
    (hs.invariant hroot).1 o (Array.mem_toList_iff.2 (Array.mem_of_getElem? ho))
  rw [hdeclaration] at hwithin
  have hbegun : Working root (id :: opened) (s.begun id) := hs.begin hshape rfl
  have hlt : id < s.objects.size := (Array.getElem?_eq_some_iff.1 ho).1
  obtain ⟨properties, hr, hknown⟩ := knows_of_properties hroot hc (hs.invariant hroot).1 hlt h
  change (objectProperties (answer d) (.object id)).exec c s = (.ok r, s') at h
  rw [exec_objectProperties_unknown hshape rfl] at h
  obtain ⟨properties', s₁, hrun, hr', rfl⟩ := exists_of_finishProperties h
  obtain rfl : properties' = properties := Option.some.inj (hr'.symm.trans hr)
  obtain ⟨inherited, own, hs₁, hall, hown, hmerges⟩ :=
    exists_of_interfaceProperties hroot hc hwithin hbegun hrun
  have hfinished : (s₁.finished id properties').Within root :=
    Store.within_change (fun o => .inr rfl) hs₁
  have hnew : id ∉ opened := (List.nodup_cons.1 (hbegun.invariant hroot).2.1).1
  refine ⟨properties', inherited, own, hr, hown, hmerges, fun s'' hlater =>
    ⟨hlater.knows hroot hfinished hnew hknown, hall.imp fun _ _ h => ?_⟩⟩
  exact (h.finished List.mem_cons_self).later hroot (List.subset_cons_self _ _) hfinished hlater

/-- An alias that is not being resolved stands for the type that is recorded for it. -/
lemma lookup_aliases_of_denoted {e : Cursor} {t : Ty} (hkind : e.kind = .typeName)
    (hdeclared : c.aliases.lookup e.text = some declaration) (hopen : e.text ∉ c.resolvingAliases)
    (h : (answer (d + 1) _ (.denoted e)).exec c s = (.ok t, s')) :
    s'.aliases.lookup e.text = some t := by
  have halias : (aliasType (answer d) e.text declaration).exec c s = (.ok t, s') := by
    simp only [answer, answerWith, denotation, hkind] at h
    obtain ⟨c', s₁, hread, h⟩ := exec_bind_eq_ok.1 h
    cases hread
    simp only [hdeclared] at h
    exact h
  rcases hresolved : s.aliases.lookup e.text with - | t'
  · rw [exec_aliasType_new _ hresolved hopen] at halias
    obtain ⟨t', s₁, -, hsettle⟩ := exec_bind_eq_ok.1 halias
    have haliases := aliases_settleAlias e.text t' c s₁
    rw [hsettle] at haliases
    have ht : t' = t := by
      cases t' <;> exact Except.ok.inj (congrArg Prod.fst hsettle)
    rw [haliases, ht, List.lookup_cons_self]
  · rw [exec_aliasType_resolved _ hresolved] at halias
    cases halias
    exact hresolved

end

/-! ## Derived types -/

open Route (programOf parse_eq_some_programOf)

/-- **Derived types have all the properties of the types that they are derived from, except of those
whose properties are being worked out at the moment.**  At every moment of the analysis of a legible
tree: the type that a selection denotes has the selected properties of its source, in their order, and the
properties of an interface are those of the types that it extends, left to right, and then its own; a
repeated name has its first place and its last property.  What a source or an extended type contributes
is what it has ever after, or nothing while that is being worked out (`Contributes`).  An alias that is
not being resolved stands for the type that is recorded for it. -/
theorem properties_of_derived {root : Node} (hlegible : root.Legible) {opened : List Nat} {s : Store}
    (hs : Working root opened s) {c : Context} (hc : c.Within root) :
    (∀ keep e source keys d t s', Source.Within root e → Selection keep e source keys →
      (answer (d + 1) _ (.denoted e)).exec c s = (.ok t, s') →
      Selects root opened d c keep source keys s t s') ∧
    (∀ id declaration d r s', s.shape? id = some (.interface declaration) →
      (answer (d + 1) _ (.properties (.object id))).exec c s = (.ok r, s') →
      Extends root opened d c declaration id r s') ∧
    (∀ e declaration d t s', e.kind = .typeName → c.aliases.lookup e.text = some declaration →
      e.text ∉ c.resolvingAliases → (answer (d + 1) _ (.denoted e)).exec c s = (.ok t, s') →
      s'.aliases.lookup e.text = some t) := by
  exact ⟨fun keep e source keys d t s' hwithin he h => he.selects hlegible hc hs hwithin h,
    fun id declaration d r s' hshape h => .of_properties hlegible hc hs hshape h,
    fun e declaration d t s' hkind hdeclared hopen h =>
      lookup_aliases_of_denoted hkind hdeclared hopen h⟩

/-- An interface that extends another one, and a selection from it. -/
def derivedText : String :=
  "interface B \x7b a: string; b: string \x7d\ninterface T extends B \x7b b: number; c: T \x7d\n" ++
  "let x: Omit<T, 'a' | 'c'>\n"

/-- A run that is known to end with an answer. -/
lemma exists_exec_of_isSome {α : Type} {x : Infer α} {c : Context} {s : Store}
    (h : (x.exec c s).1.toOption.isSome = true) : ∃ a, x.exec c s = (.ok a, (x.exec c s).2) := by
  rcases hout : x.exec c s with ⟨e | a, s'⟩
  · rw [hout] at h
    cases h
  · exact ⟨a, rfl⟩

set_option maxRecDepth 10000 in
/-- The two interfaces and the selection, in a fresh store. -/
theorem properties_of_derivedText :
    let program := programOf derivedText
    let c := Context.ofFile depthBound (.ofRoot program)
    Source.parse .plain derivedText = some program ∧ program.Legible ∧
      (∃ t s', (answer depthBound _ (.denoted (program.nth 44))).exec c .empty = (.ok t, s') ∧
        Selects program [] (depthBound - 1) c false (program.nth 48) (program.nth 50) .empty t s') ∧
      ∃ t s r s', (answer depthBound _ (.denoted (program.nth 48))).exec c .empty = (.ok t, s) ∧
        s.aliases.lookup "T" = some t ∧
        (answer depthBound _ (.properties (.object 0))).exec c s = (.ok r, s') ∧
        Extends program [] (depthBound - 1) c (program.nth 18) 0 r s' := by
  intro program c
  let declaration? : Shape → Option Cursor := fun
    | .interface declaration => some declaration
    | _ => none
  let s := ((answer depthBound _ (.denoted (program.nth 48))).exec c .empty).2
  have hspec : (Source.parse .plain derivedText).isSome = true ∧
      (program.nth 44).kind = .genericType ∧
      ((program.nth 44).child? .name).map Cursor.text = some "Omit" ∧
      ((program.nth 44).child? .typeArguments).map Cursor.named =
        some [program.nth 48, program.nth 50] ∧
      (program.nth 48).kind = .typeName ∧ (program.nth 48).text = "T" ∧
      c.aliases.lookup "T" = some (program.nth 18) ∧
      ((answer depthBound _ (.denoted (program.nth 44))).exec c .empty).1.toOption.isSome = true ∧
      ((answer depthBound _ (.denoted (program.nth 48))).exec c .empty).1.toOption.isSome = true ∧
      (s.shape? 0).bind declaration? = some (program.nth 18) ∧
      ((answer depthBound _ (.properties (.object 0))).exec c s).1.toOption.isSome = true := by
    decide +kernel
  obtain ⟨hparse, hkind, hname, hargs, hsource, htext, hlookup, hselected, hdenoted, hshape,
    hproperties⟩ := hspec
  have hprogram : Source.parse .plain derivedText = some program := parse_eq_some_programOf hparse
  have hlegible : program.Legible := Source.legible_of_parse hprogram
  have hc : c.Within program :=
    ⟨fun _ ha => within_of_mem_declarationsOf ha, fun _ ha => within_of_mem_declarationsOf ha⟩
  have hselection : Selection false (program.nth 44) (program.nth 48) (program.nth 50) :=
    ⟨hkind, hname, hargs⟩
  obtain ⟨t, ht⟩ := exists_exec_of_isSome hselected
  obtain ⟨t', ht'⟩ := exists_exec_of_isSome hdenoted
  obtain ⟨r, hr⟩ := exists_exec_of_isSome hproperties
  have hs : Working program [] s := .later .start
    (.query (q := .denoted (program.nth 48)) .refl (Source.within_nth program 48) hc ht')
  have hinterface : s.shape? 0 = some (.interface (program.nth 18)) := by
    obtain ⟨shape, heq, hdeclaration⟩ := Option.bind_eq_some_iff.1 hshape
    cases shape with
    | interface declaration => rw [heq, Option.some.inj hdeclaration]
    | _ => cases hdeclaration
  refine ⟨hprogram, hlegible, ⟨t, _, ht, ?_⟩, t', s, r, _, ht', ?_, hr, ?_⟩
  · exact (properties_of_derived hlegible .start hc).1 false _ _ _ _ t _
      (Source.within_nth program 44) hselection ht
  · rw [← htext]
    exact (properties_of_derived hlegible .start hc).2.2 _ _ _ t' s hsource (htext ▸ hlookup)
      List.not_mem_nil ht'
  · exact (properties_of_derived hlegible hs hc).2.1 0 _ _ r _ hinterface hr

/-- An interface with a property whose type is selected from the interface itself. -/
def ownSelectionText : String :=
  "interface T \x7b a: string; p: Pick<T, 'a'> \x7d\nconst t: T = f()\n"

/-- The names of the properties of a type, and of those of one of its properties. -/
def namesBelow (e : Cursor) (name : String) : Infer (List String × List (List String)) := do
  let properties ← propertiesOf ask (← denoted e)
  let below ← (properties.filter (·.name == name)).mapM fun p => propertiesOf ask p.type
  return (properties.map (·.name), below.map fun ps => ps.map (·.name))

/-- **A selection that is not complete**: the interface has the property that is selected, and the
selection from it has none. -/
theorem selection_not_complete : ∃ program e source keys,
    Source.parse .plain ownSelectionText = some program ∧ Source.Within program e ∧
      Selection true e source keys ∧ Spells keys ["a"] ∧ source.kind = .typeName ∧
      source.text = "T" ∧
      (runs program .empty (namesBelow (program.nth 32) "p") depthBound).1 =
        .ok (["a", "p"], [[]]) := by
  let program := programOf ownSelectionText
  have hspec : (Source.parse .plain ownSelectionText).isSome = true ∧
      (program.nth 16).kind = .genericType ∧
      ((program.nth 16).child? .name).map Cursor.text = some "Pick" ∧
      ((program.nth 16).child? .typeArguments).map Cursor.named =
        some [program.nth 20, program.nth 22] ∧
      (program.nth 22).kind = .literalType ∧ (program.nth 22).named.head? = some (program.nth 23) ∧
      (program.nth 23).kind = .string ∧ (program.nth 23).stringValue? = some "a" ∧
      (program.nth 20).kind = .typeName ∧ (program.nth 20).text = "T" ∧
      (runs program .empty (namesBelow (program.nth 32) "p") depthBound).1 =
        .ok (["a", "p"], [[]]) := by
    decide +kernel
  obtain ⟨hparse, hkind, hname, hargs, hliteral, hhead, hstring, hvalue, hsource⟩ := hspec
  exact ⟨program, program.nth 16, program.nth 20, program.nth 22, parse_eq_some_programOf hparse,
    Source.within_nth program 16, ⟨hkind, hname, hargs⟩, .literal hliteral hhead hstring hvalue,
    hsource⟩

end RouteScribe.Typing
