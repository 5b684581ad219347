import RouteScribe.Proofs.Typing.Derived

/-!
# Keys of records

A record with given keys has one property for each of them, also if two of them are the same string.
Two members of a union can be the same string only if one of them is a member of an enumeration, since
equal literals are displayed alike.  `IsKeyed` singles out the type expressions for which the file shows
that no string is repeated (`nodup_strings_of_spells`, `nodup_strings_of_enumTypes`).
-/

namespace RouteScribe.Typing

open Infer
open Source (Node Cursor)

/-! ## What the file shows -/

/-- The declarations of aliases and interfaces of a file, by name. -/
def aliasesOf (root : Node) : List (String × Cursor) :=
  declarationsOf [.typeAliasDeclaration, .interfaceDeclaration] (.ofRoot root)

/-- The declarations of enumerations of a file, by name. -/
def enumsOf (root : Node) : List (String × Cursor) :=
  declarationsOf [.enumDeclaration] (.ofRoot root)

/-- The string among the constants. -/
def Constant.text? : Constant → Option String
  | .text s => some s
  | .number _ => none

/-- The strings that members of an enumeration have as values are different ones. -/
def HasDistinctValues (declaration : Cursor) : Prop :=
  ∀ members, enumMembers declaration = .ok members →
    (members.filterMap fun m => m.2.bind Constant.text?).Nodup

/-- The type expressions that can denote a union. -/
def unionKinds : List Source.Kind :=
  [.ascription, .parenthesizedType, .readonlyType, .assertsAscription, .unionType, .intersectionType,
   .typeName, .genericType, .typeQuery]

/-- Type expressions among whose strings there are no two the same, as the file shows: those that never
denote a union, unions of string literals, names of enumerations with different values, names that are
not declared, and aliases of such expressions. -/
inductive IsKeyed (root : Node) : Cursor → Prop
  | single {e : Cursor} : e.kind ∉ unionKinds → IsKeyed root e
  | spelled {e : Cursor} {names : List String} : Spells e names → IsKeyed root e
  | enumeration {e : Cursor} : e.kind = .typeName → (aliasesOf root).lookup e.text = none →
    (∀ declaration, (enumsOf root).lookup e.text = some declaration → HasDistinctValues declaration) →
    IsKeyed root e
  | aliased {e declaration value : Cursor} : e.kind = .typeName →
    (aliasesOf root).lookup e.text = some declaration → declaration.kind ≠ .interfaceDeclaration →
    declaration.child? .value = some value → IsKeyed root value → IsKeyed root e

/-- All records of a file have such keys. -/
def HasKeyedRecords (root : Node) : Prop :=
  ∀ c e value, Source.Within root c → c.kind = .genericType →
    (c.child? .name).map Cursor.text = some "Record" →
    (c.child? .typeArguments).map Cursor.named = some [e, value] → IsKeyed root e

/-! ## Strings of a type -/

section

variable {c : Context} {s s' : Store} {ts : List Ty} {t u : Ty}

lemma nodup_strings_of_single (h : t.unionMembers? = none) : t.strings.Nodup := by
  rw [Ty.strings, Ty.alternatives_of_single h, List.filterMap_cons]
  split
  · simp
  · simp

lemma nodup_strings_ofAlternatives (hts : ∀ m ∈ ts, m.unionMembers? = none)
    (h : (ts.filterMap Ty.stringValue?).Nodup) : (Ty.ofAlternatives ts).strings.Nodup := by
  unfold Ty.ofAlternatives
  split
  · exact nodup_strings_of_single rfl
  · split
    · exact nodup_strings_of_single rfl
    · split
      · exact nodup_strings_of_single (hts _ List.mem_cons_self)
      · exact h

/-- If all alternatives are strings, these are the strings. -/
lemma strings_of_mapM {names : List String}
    (h : t.alternatives.mapM Ty.stringValue? = some names) : t.strings = names := by
  rw [Ty.strings]
  generalize t.alternatives = members at h
  induction members generalizing names with
  | nil =>
    cases h
    rfl
  | cons m members ih =>
    rw [List.mapM_cons] at h
    obtain ⟨name, hname, h⟩ := Option.bind_eq_some_iff.1 h
    obtain ⟨rest, hrest, h⟩ := Option.bind_eq_some_iff.1 h
    cases h
    rw [List.filterMap_cons_some hname, ih hrest]

/-! ## Enumerations -/

lemma stringValue?_enumMember (enumeration member : String) (value : Option Constant) :
    (Ty.enumMember enumeration member value).stringValue? = value.bind Constant.text? := by
  rcases value with - | v
  · rfl
  · cases v <;> rfl

/-- The union of some members of an enumeration with different values. -/
lemma nodup_strings_of_enumTypes {ask : Answers} {name : String} {declaration : Cursor}
    (hdistinct : HasDistinctValues declaration) {s₁ s₂ : Store}
    (hts : (enumTypes name declaration).exec c s = (.ok ts, s₁))
    (hu : (makeUnion ask ts).exec c s₁ = (.ok u, s₂)) : u.strings.Nodup := by
  obtain ⟨members, s₃, hmembers, hpure⟩ := exec_bind_eq_ok.1 hts
  cases hpure
  have hread : enumMembers declaration = .ok members := by
    rcases heq : enumMembers declaration with e | members'
    · rw [heq] at hmembers
      cases hmembers
    · rw [heq] at hmembers
      cases hmembers
      rfl
  obtain ⟨kept, hkept, rfl⟩ := exists_sublist_of_makeUnion hu
  have hflat : (members.map fun m => Ty.enumMember name m.1 m.2).flatMap Ty.alternatives =
      members.map fun m => Ty.enumMember name m.1 m.2 := by
    rw [List.flatMap_map]
    exact List.map_eq_flatMap.symm
  rw [hflat] at hkept
  refine nodup_strings_ofAlternatives (fun m hm => ?_) ?_
  · obtain ⟨m, -, rfl⟩ := List.mem_map.1 (hkept.subset hm)
    rfl
  · refine List.Nodup.sublist (hkept.filterMap _) ?_
    rw [List.filterMap_map]
    simpa only [Function.comp_def, stringValue?_enumMember] using hdistinct members hread

/-! ## Literals -/

/-- The values that are kept have different keys, none of which had been seen. -/
lemma exists_sublist_nodup_firstOfKeys {κ α : Type} [BEq κ] [LawfulBEq κ] (seen : List κ)
    (entries : List (κ × α)) : ∃ kept : List (κ × α), kept.Sublist entries ∧
      firstOfKeys seen entries = kept.map (·.2) ∧ (kept.map (·.1)).Nodup ∧
      ∀ k ∈ kept.map (·.1), k ∉ seen := by
  induction entries generalizing seen with
  | nil => exact ⟨[], .slnil, rfl, .nil, by simp⟩
  | cons e rest ih =>
    obtain ⟨k, a⟩ := e
    rw [firstOfKeys]
    split
    case isTrue hk =>
      obtain ⟨kept, hsublist, heq, hnodup, hnew⟩ := ih seen
      exact ⟨kept, hsublist.cons _, heq, hnodup, hnew⟩
    case isFalse hk =>
      obtain ⟨kept, hsublist, heq, hnodup, hnew⟩ := ih (k :: seen)
      refine ⟨(k, a) :: kept, hsublist.cons_cons _, by rw [heq, List.map_cons], ?_, ?_⟩
      · rw [List.map_cons, List.nodup_cons]
        exact ⟨fun hmem => hnew k hmem List.mem_cons_self, hnodup⟩
      · rintro k' hk' hseen
        rcases List.mem_cons.1 hk' with rfl | hk'
        · exact hk (List.contains_iff_mem.2 hseen)
        · exact hnew k' hk' (List.mem_cons_of_mem _ hseen)

/-- A union that is made of string literals only repeats none, because equal literals are displayed
alike. -/
lemma nodup_strings_of_makeUnion {d : Nat}
    (hliterals : ∀ m ∈ ts.flatMap Ty.alternatives, ∃ name, m = textType name)
    (h : (makeUnion (answer d) ts).exec c s = (.ok u, s')) : u.strings.Nodup := by
  obtain ⟨keyed, s₁, hkeyed, hpure⟩ := exec_bind_eq_ok.1 h
  cases hpure
  have hmap : keyed.map (·.2) = ts.flatMap Ty.alternatives := map_snd_of_keyed hkeyed
  obtain ⟨kept, hsublist, heq, hnodup, -⟩ := exists_sublist_nodup_firstOfKeys [] keyed
  have hliteral : ∀ e ∈ kept, ∃ name, e = (.display ("\"" ++ name ++ "\""), textType name) := by
    rintro ⟨k, t⟩ he
    have hmem : (k, t) ∈ keyed := hsublist.subset he
    obtain ⟨name, rfl⟩ := hliterals t (hmap ▸ List.mem_map_of_mem hmem)
    exact ⟨name, by rw [key_of_keyed hmem hkeyed]⟩
  rw [heq]
  refine nodup_strings_ofAlternatives (fun m hm => ?_) ?_
  · obtain ⟨e, he, rfl⟩ := List.mem_map.1 hm
    obtain ⟨name, rfl⟩ := hliteral e he
    rfl
  · -- Each key is that of the string in quotes, so different keys are different strings.
    have hkeys : kept.map (·.1) = ((kept.map (·.2)).filterMap Ty.stringValue?).map fun name =>
        UnionKey.display ("\"" ++ name ++ "\"") := by
      clear heq hsublist hnodup
      induction kept with
      | nil => rfl
      | cons e rest ih =>
        obtain ⟨name, rfl⟩ := hliteral e List.mem_cons_self
        have hrest := ih fun e he => hliteral e (List.mem_cons_of_mem _ he)
        rw [List.map_cons, List.map_cons, hrest]
        rfl
    rw [hkeys] at hnodup
    exact hnodup.of_map _

/-- String literals, alone or in a union, are different strings. -/
lemma nodup_strings_of_spells {e : Cursor} {names : List String} (h : Spells e names) {d : Nat}
    (ht : (answer d _ (.denoted e)).exec c s = (.ok t, s')) : t.strings.Nodup := by
  have hspelled {e : Cursor} {names : List String} (h : Spells e names) {d : Nat} {t : Ty}
      {s s' : Store} (ht : (answer d _ (.denoted e)).exec c s = (.ok t, s')) :
      ∀ m ∈ t.alternatives, ∃ name, m = textType name := fun m hm =>
    ((h.isSpelled ht).literals m hm).imp fun _ h => h.2
  induction h generalizing d t s s' with
  | literal hkind hvalue hstring hname =>
    cases d with
    | zero => cases ht
    | succ d =>
      simp only [answer, answerWith, denotation, hkind, hvalue, literalType, hstring, hname] at ht
      cases ht
      exact nodup_strings_of_single rfl
  | parenthesized hkind hinner _ ih =>
    cases d with
    | zero => cases ht
    | succ d =>
      simp only [answer, answerWith, denotation, hkind, hinner, denotedBy] at ht
      exact ih ht
  | alone hkind hnamed hinner _ =>
    cases d with
    | zero => cases ht
    | succ d =>
      simp only [answer, answerWith, denotation, hkind, hnamed, denotedAll] at ht
      obtain ⟨ts, s₁, hts, hunion⟩ := exec_bind_eq_ok.1 ht
      obtain ⟨u, hu, rfl⟩ := exists_of_mapM_singleton hts
      exact nodup_strings_of_makeUnion (by simpa using hspelled hinner hu) hunion
  | union hkind hnamed hleft hright _ _ =>
    cases d with
    | zero => cases ht
    | succ d =>
      simp only [answer, answerWith, denotation, hkind, hnamed, denotedAll] at ht
      obtain ⟨ts, s₁, hts, hunion⟩ := exec_bind_eq_ok.1 ht
      obtain ⟨l, s₂, r, hl, hr, rfl⟩ := exists_of_mapM_pair hts
      refine nodup_strings_of_makeUnion (fun m hm => ?_) hunion
      simp only [List.flatMap_cons, List.flatMap_nil, List.append_nil, List.mem_append] at hm
      exact hm.elim (hspelled hleft hl m) (hspelled hright hr m)

/-! ## Type expressions that denote no union -/

lemma unionMembers?_of_objectOf {ask : Answers} {body : Cursor} {name : Option String}
    (h : (objectOf ask body name).exec c s = (.ok t, s')) : t.unionMembers? = none := by
  unfold objectOf at h
  extract_lets named last at h
  have hlast {v : Option Ty} {s : Store} (h : (last v).exec c s = (.ok t, s')) :
      t.unionMembers? = none := by
    cases v with
    | none => cases h; rfl
    | some value => cases h; rfl
  split at h
  · exact hlast (v := none) h
  · obtain ⟨v, s₁, -, h⟩ := exec_bind_eq_ok.1 h
    exact hlast h

lemma unionMembers?_of_literalType {e : Option Cursor}
    (h : (literalType e).exec c s = (.ok t, s')) : t.unionMembers? = none := by
  unfold literalType at h
  split at h
  · cases h
    rfl
  · split at h
    case h_7 =>
      obtain ⟨v, s₁, -, h⟩ := exec_bind_eq_ok.1 h
      split at h <;> cases h <;> rfl
    all_goals cases h; rfl

lemma unionMembers?_of_nestedType {e : Cursor} (h : (nestedType e).exec c s = (.ok t, s')) :
    t.unionMembers? = none := by
  unfold nestedType at h
  split at h
  · obtain ⟨x, s₁, -, h⟩ := exec_bind_eq_ok.1 h
    split at h
    · obtain ⟨members, s₂, -, h⟩ := exec_bind_eq_ok.1 h
      split at h <;> cases h <;> rfl
    · cases h
      rfl
  · cases h
    rfl

/-- What an expression of another form denotes is no union. -/
lemma unionMembers?_eq_none_of_kind {ask : Answers} {e : Cursor} (he : e.kind ∉ unionKinds)
    (h : ( denotation ask e).exec c s = (.ok t, s')) : t.unionMembers? = none := by
  unfold denotation at h
  split at h <;> rename_i hkind
  case h_5 =>
    cases h
    cases Primitive.ofName? e.text <;> rfl
  case h_6 => exact unionMembers?_of_literalType h
  case h_11 | h_12 =>
    obtain ⟨u, s₁, -, h⟩ := exec_bind_eq_ok.1 h
    cases h
    rfl
  case h_13 | h_14 => exact unionMembers?_of_objectOf h
  case h_16 => exact unionMembers?_of_nestedType h
  case h_1 | h_2 | h_3 | h_4 | h_9 | h_10 | h_15 | h_17 | h_20 => simp [hkind, unionKinds] at he
  all_goals
    cases h
    rfl

end

end RouteScribe.Typing
