import RouteScribe.Proofs.Typing.Norms

/-!
# Answers keep to the norm
-/

namespace RouteScribe.Typing

open Infer
open Source (Node Cursor)

/-! ## What type expressions denote -/

lemma keeps_literalType {n : Norm} {c : Option Cursor}
    (hc : ∀ d, c = some d → Source.Within n.root d) : n.Keeps (literalType c) n.Allows := by
  unfold literalType
  split
  · exact keeps_pure trivial
  · rename_i c
    split
    case h_7 =>
      refine (keeps_ofNumbers _).bind fun v hv => ?_
      split
      · exact keeps_pure (numberOf_of_constantValue? (hc c rfl) hv)
      · exact keeps_pure trivial
    all_goals exact keeps_pure trivial

section

variable {n : Norm} {ask : Answers} {c body : Cursor} (hask : n.Answers ask)

include hask

lemma keeps_denoted (hc : Source.Within n.root c) : n.Keeps (ask _ (.denoted c)) n.Allows :=
  (hask.denoted c hc).mono fun _ h => h.1

lemma keeps_denotedBy {e : Option Cursor} (he : ∀ d, e = some d → Source.Within n.root d) :
    n.Keeps (denotedBy ask e) n.Allows := by
  cases e with
  | none => exact keeps_pure trivial
  | some e => exact keeps_denoted hask (he e rfl)

lemma keeps_denotedAll {es : List Cursor} (hes : ∀ e ∈ es, Source.Within n.root e) :
    n.Keeps (denotedAll ask es) fun ts => ∀ t ∈ ts, n.Allows t :=
  keeps_mapM_all fun e he => keeps_denoted hask (hes e he)

/-- The types given to a generic, and, if it is a record, the keys among them. -/
lemma keeps_typeArguments (hc : Source.Within n.root c) :
    n.Keeps (typeArguments ask c) fun args => (∀ t ∈ args, n.Allows t) ∧
      (HasKeyedRecords n.root → c.kind = .genericType →
        (c.child? .name).map Cursor.text = some "Record" →
        ∀ key value, args = [key, value] → key.strings.Nodup) := by
  unfold typeArguments
  split
  case h_2 => exact keeps_pure ⟨by simp, fun _ _ _ _ _ h => by cases h⟩
  case h_1 args hargs =>
    have hwithin : ∀ e ∈ args.named, Source.Within n.root e := fun e he => (hc.child hargs).named he
    refine (keeps_mapM fun e he => hask.denoted e (hwithin e he)).mono fun ts hts => ⟨?_, ?_⟩
    · exact forall_mem_of_forall₂ (hts.imp fun _ _ h => h.1)
    · rintro hrecords hgeneric hname key value rfl
      match hnamed : args.named, hts with
      | [e, e'], .cons hkey (.cons _ .nil) =>
        refine hkey.2 (hrecords c e e' hc hgeneric hname ?_)
        rw [hargs, Option.map_some, hnamed]

/-! ## Members of object types -/

lemma keeps_declaredTypes (hbody : Source.Within n.root body) :
    n.Keeps (declaredProperties ask body) fun ps => ∀ p ∈ ps, n.Allows p.type := by
  refine Norm.Keeps.bind (keeps_mapM_all (R := fun ps : List Property => ∀ p ∈ ps, n.Allows p.type)
    fun m hm => ?member) fun lists hlists => keeps_pure fun p hp => ?_
  case member =>
    have hwithin : Source.Within n.root m := hbody.named (List.mem_of_mem_filter hm)
    have htype : n.Keeps (denotedBy ask (m.child? .type)) n.Allows :=
      keeps_denotedBy hask fun d hd => hwithin.child hd
    split
    · exact keeps_pure (by simp)
    · rename_i name _
      have hlast {x : Infer Ty} (hx : n.Keeps x n.Allows) : n.Keeps (do
          let type ← x
          return [(⟨name, m.node.hasToken "?", type⟩ : Property)])
          fun ps => ∀ p ∈ ps, n.Allows p.type :=
        hx.bind fun t ht => keeps_pure (by simpa using ht)
      have hdeclared {t : Ty} (ht : n.Allows t) : n.Keeps (do
          let type ← if m.node.hasToken "?" = true then withUndefined ask t else pure t
          return [(⟨name, m.node.hasToken "?", type⟩ : Property)])
          fun ps => ∀ p ∈ ps, n.Allows p.type := by
        split
        · exact hlast (keeps_withUndefined hask ht)
        · exact hlast (keeps_pure ht)
      dsimp only
      split
      · exact (keeps_pure (a := Ty.function m.text) (R := n.Allows) trivial).bind fun t ht =>
          hdeclared ht
      · exact htype.bind fun t ht => hdeclared ht
  obtain ⟨ps, hps, hp⟩ := List.mem_flatten.1 hp
  exact hlists ps hps p hp

lemma keeps_declaredProperties (hbody : Source.Within n.root body)
    (hnames : n.strict → ((declaredNames body).map (·.1)).Nodup) :
    n.Keeps (declaredProperties ask body) n.Lists := by
  refine ((keeps_declaredTypes hask hbody).and fun c s ps s' hrun =>
    names_of_declaredProperties hrun).mono fun ps hps => ⟨hps.1, fun hstrict => ?_⟩
  have hsame : ps.map (·.name) = (declaredNames body).map (·.1) := by
    rw [← hps.2, List.map_map]
    rfl
  exact hsame ▸ hnames hstrict

lemma keeps_indexedValue? (hbody : Source.Within n.root body) :
    n.Keeps (indexedValue? ask body) fun v => ∀ t ∈ v, n.Allows t := by
  unfold indexedValue?
  split
  · exact keeps_pure (by simp)
  · rename_i m hfind
    refine (keeps_denotedBy hask fun d hd => ?_).bind fun t ht => keeps_pure (by simpa using ht)
    exact (hbody.named (List.mem_of_find?_eq_some hfind)).child hd

lemma keeps_objectOf (name : Option String) (hbody : Source.Within n.root body)
    (hnames : n.strict → ((declaredNames body).map (·.1)).Nodup) :
    n.Keeps (objectOf ask body name) n.Allows := by
  unfold objectOf
  extract_lets named last
  have hlast (v : Option Ty) (hv : ∀ t ∈ v, n.Allows t) : n.Keeps (last v) n.Allows := by
    cases v with
    | none => exact keeps_newObject name ⟨hbody, hnames⟩
    | some value => exact keeps_pure (hv value rfl)
  split
  · exact (keeps_pure (R := fun v : Option Ty => ∀ t ∈ v, n.Allows t) (by simp)).bind hlast
  · exact (keeps_indexedValue? hask hbody).bind hlast

lemma keeps_interfaceProperties {declaration : Cursor} (h : Source.Within n.root declaration) :
    n.Keeps (interfaceProperties ask declaration) n.Lists := by
  have hinherited : n.Keeps ((basesOf declaration).mapM fun base => do
      propertiesOf ask (← ask _ (.denoted base))) fun lists => ∀ ps ∈ lists, n.Lists ps :=
    keeps_mapM_all fun base hbase => (keeps_denoted hask (within_of_mem_basesOf h hbase)).bind fun t _ =>
      keeps_propertiesOf hask t
  refine hinherited.bind fun lists hlists => ?_
  have hmerged {own : List Property} (hown : ∀ p ∈ own, n.Allows p.type) :
      n.Lists (mergeProperties (lists.flatten ++ own)) := by
    refine lists_mergeProperties fun p hp => ?_
    rcases List.mem_append.1 hp with hp | hp
    · obtain ⟨ps, hps, hp⟩ := List.mem_flatten.1 hp
      exact (hlists ps hps).1 p hp
    · exact hown p hp
  split
  · rename_i body hbody
    exact (keeps_declaredTypes hask (h.child hbody)).bind fun own hown => keeps_pure (hmerged hown)
  · exact keeps_pure (hmerged (by simp))

/-- A mapping keeps the name of a property. -/
lemma keeps_mapProperty (how : Mapping) {p : Property} (hp : n.Allows p.type) :
    n.Keeps (mapProperty ask how p) fun q => q.name = p.name ∧ n.Allows q.type := by
  cases how with
  | optional => exact (keeps_withUndefined hask hp).bind fun t ht => keeps_pure ⟨rfl, ht⟩
  | required => exact (keeps_presentType hask hp).bind fun t ht => keeps_pure ⟨rfl, ht⟩
  | unchanged => exact keeps_pure ⟨rfl, hp⟩

lemma keeps_shapeProperties {shape : Shape} (h : n.Fits shape) :
    n.Keeps (shapeProperties ask shape) n.Lists := by
  cases shape with
  | known ps => exact keeps_pure h
  | interface declaration => exact keeps_interfaceProperties hask h
  | members body => exact keeps_declaredProperties hask h.1 h.2
  | mapped how source =>
    refine (keeps_propertiesOf hask source).bind fun ps hps => ?_
    refine (keeps_mapM fun p hp => keeps_mapProperty hask how (hps.1 p hp)).mono fun qs hqs => ?_
    have hnames : qs.map (·.name) = ps.map (·.name) := map_eq_of_forall₂ (hqs.imp fun _ _ h => h.1)
    exact ⟨forall_mem_of_forall₂ (hqs.imp fun _ _ h => h.2), fun hstrict => hnames ▸ hps.2 hstrict⟩
  | merged parts =>
    refine (keeps_mapM_all fun t _ => keeps_propertiesOf hask t).bind fun lists hlists =>
      keeps_pure (lists_mergeProperties fun p hp => ?_)
    obtain ⟨ps, hps, hp⟩ := List.mem_flatten.1 hp
    exact (hlists ps hps).1 p hp

/-- The properties of an object are found while it has none, and become known. -/
lemma keeps_objectProperties (t : Ty) :
    n.Keeps (objectProperties ask t) fun r => ∀ ps, r = some ps → n.Lists ps := by
  have hset (id : Nat) {ps : List Property} (hps : n.Lists ps) :
      n.Keeps (modifyObject id fun o => { o with shape := .known ps }) fun _ => True :=
    keeps_modifyObject fun _ _ => hps
  have hfinish (id : Nat) {shape : Shape} (hshape : n.Fits shape) : n.Keeps (do
      modifyObject id fun o => { o with shape := .known [] }
      let properties ← shapeProperties ask shape
      modifyObject id fun o => { o with shape := .known properties }
      return some properties) fun r => ∀ ps, r = some ps → n.Lists ps :=
    (hset id Norm.lists_nil).bind fun _ _ => (keeps_shapeProperties hask hshape).bind fun ps hps =>
      (hset id hps).bind fun _ _ => keeps_pure (by simpa using hps)
  cases t
  case object id =>
    refine (keeps_objectInfo id).bind fun o ho => ?_
    split
    · rename_i ps hknown
      rw [hknown] at ho
      exact keeps_pure fun qs hqs => Option.some.inj hqs ▸ ho
    · exact hfinish id ho
  all_goals exact keeps_pure (by simp)

end

/-! ## Names of types -/

lemma keeps_enumTypes {n : Norm} (name : String) (declaration : Cursor) :
    n.Keeps (enumTypes name declaration) fun ts => ∀ t ∈ ts, n.Allows t :=
  (keeps_ofNumbers _).bind fun members _ => keeps_pure fun t ht => by
    obtain ⟨m, -, rfl⟩ := List.mem_map.1 ht
    trivial

lemma keeps_enumMemberType {n : Norm} (declaration : Cursor) (member : String) :
    n.Keeps (enumMemberType declaration member) n.Allows := by
  refine (keeps_ofNumbers _).bind fun members _ => ?_
  split
  · exact keeps_pure trivial
  · exact keeps_pure trivial

lemma keeps_nestedType {n : Norm} (c : Cursor) : n.Keeps (nestedType c) n.Allows := by
  unfold nestedType
  split
  · refine keeps_read.bind fun x _ => ?_
    split
    · exact keeps_enumMemberType _ _
    · exact keeps_pure (by simp)
  · exact keeps_pure (by simp)

lemma keeps_settleAlias {n : Norm} {name : String} {t : Ty} (ht : n.Allows t)
    (hkeys : n.IsKeyedAlias name → t.strings.Nodup) :
    n.Keeps (settleAlias name t) fun u => u = t := by
  refine Norm.keeps_iff.2 fun c s hs => ?_
  obtain ⟨s', hrun, -⟩ := exec_settleAlias name t s
  have hafter : n.Kept s' := by
    have hs' : s' = ((settleAlias name t).exec c s).2 := by rw [hrun c]
    refine ⟨?_, ?_⟩
    · rw [hs']
      cases t with
      | object id =>
        exact (hs.2.change (f := fun o => { o with name := o.name <|> some name })
          fun _ ho => ho).shapes
      | _ => exact hs.2.shapes
    · rw [hs', aliases_settleAlias]
      exact List.forall_mem_cons.2 ⟨⟨ht, hkeys⟩, hs.2.aliases⟩
  rw [hrun c]
  exact ⟨fun u s'' heq => (by cases heq; exact ⟨rfl, hs.1, hafter⟩), fun _ _ heq => (by cases heq)⟩

lemma keeps_recordType {n : Norm} {key value : Ty} (hvalue : n.Allows value)
    (hkey : n.strict → key.strings.Nodup) : n.Keeps (recordType key value) n.Allows := by
  unfold recordType
  split
  · rename_i names hnames
    refine keeps_newObject none ⟨by simpa using fun _ _ => hvalue, fun hstrict => ?_⟩
    rw [List.map_map]
    exact (List.map_id names).symm ▸ strings_of_mapM hnames ▸ hkey hstrict
  · exact keeps_pure hvalue

section

variable {n : Norm} {ask : Answers} {c : Cursor} (hask : n.Answers ask)

include hask

lemma keeps_selectedType (keep : Bool) (source keys : Ty) :
    n.Keeps (selectedType ask keep source keys) n.Allows := by
  refine (keeps_propertiesOf hask source).bind fun ps hps => keeps_newObject none ?_
  exact ⟨fun p hp => hps.1 p (List.mem_of_mem_filter hp), fun hstrict =>
    (hps.2 hstrict).sublist (List.filter_sublist.map _)⟩

lemma keeps_intersectionType {parts : List Ty} (hparts : ∀ t ∈ parts, n.Allows t) :
    n.Keeps (intersectionType ask parts) n.Allows := by
  have hobject : ∀ t ∈ parts, n.Keeps (do return (← ask _ (.properties t)).isSome) fun _ => True :=
    fun t _ => (hask.properties t).bind fun _ _ => keeps_pure trivial
  refine (keeps_filterM hobject).bind fun objects hobjects => ?_
  split
  · exact keeps_pure trivial
  · exact keeps_pure (hparts _ List.mem_cons_self)
  · exact keeps_newObject none fun t ht => hparts t (hobjects ht)

/-- A type query asks for the type of a name. -/
lemma keeps_typeQuery (hc : Source.Within n.root c) : n.Keeps (match c.named.head? with
    | some target => if target.kind == .identifier then ask _ (.typeOf target) else return .any
    | none => return .any) n.Allows := by
  split
  · rename_i target hhead
    split
    · exact hask.typeOf target (hc.named (List.mem_of_head? hhead))
    · exact keeps_pure trivial
  · exact keeps_pure trivial

variable (hdistinct : n.strict → HasDistinctMembers n.root)

include hdistinct

lemma keeps_declaredType (name : String) {declaration : Cursor}
    (h : Source.Within n.root declaration) :
    n.Keeps (declaredType ask name declaration) fun t => n.Allows t ∧
      (declaration.kind ≠ .interfaceDeclaration → ∀ value, declaration.child? .value = some value →
        IsKeyed n.root value → t.strings.Nodup) := by
  unfold declaredType
  split
  · rename_i hkind
    have hfits : n.Fits (.interface declaration) := h
    exact (keeps_newObject (some name) hfits).mono fun t ht =>
      ⟨ht, fun hne => absurd (eq_of_beq hkind) hne⟩
  · split
    · rename_i value hvalue
      have hwithin : Source.Within n.root value := h.child hvalue
      split
      · rename_i hobject
        have hbody : value.kind = .objectType := eq_of_beq hobject
        have hobject := keeps_objectOf hask (some name) hwithin fun hstrict =>
          hdistinct hstrict value hwithin (by simp [hbody])
        exact (hobject.and fun c s t s' hrun => unionMembers?_of_objectOf hrun).mono fun t ht =>
          ⟨ht.1, fun _ _ _ _ => nodup_strings_of_single ht.2⟩
      · refine (hask.denoted value hwithin).mono fun t ht => ⟨ht.1, fun _ value' hvalue' hkeyed => ?_⟩
        obtain rfl : value = value' := Option.some.inj (hvalue.symm.trans hvalue')
        exact ht.2 hkeyed
    · rename_i hnone
      exact keeps_pure ⟨trivial, fun _ value hvalue => by rw [hnone] at hvalue; cases hvalue⟩

lemma keeps_aliasType {name : String} {declaration : Cursor}
    (h : (aliasesOf n.root).lookup name = some declaration) :
    n.Keeps (aliasType ask name declaration) fun t =>
      n.Allows t ∧ (n.IsKeyedAlias name → t.strings.Nodup) := by
  have hwithin : Source.Within n.root declaration :=
    within_of_mem_declarationsOf (mem_of_lookup h)
  have hdeclared : n.Keeps (declaredType ask name declaration) fun t =>
      n.Allows t ∧ (n.IsKeyedAlias name → t.strings.Nodup) := by
    refine (keeps_declaredType hask hdistinct name hwithin).mono fun t ht => ⟨ht.1, ?_⟩
    rintro ⟨declaration', value, hlookup, hkind, hvalue, hkeyed⟩
    obtain rfl : declaration = declaration' := Option.some.inj (h.symm.trans hlookup)
    exact ht.2 hkind value hvalue hkeyed
  have hinside : n.Keeps (withReader (Context.inAlias name) (declaredType ask name declaration))
      fun t => n.Allows t ∧ (n.IsKeyedAlias name → t.strings.Nodup) :=
    hdeclared.withReader fun c hc => ⟨hc.aliases, hc.enums⟩
  have hnew : n.Keeps (withReader (Context.inAlias name) (declaredType ask name declaration) >>=
      settleAlias name) fun t => n.Allows t ∧ (n.IsKeyedAlias name → t.strings.Nodup) :=
    hinside.bind fun t ht => (keeps_settleAlias ht.1 ht.2).mono fun u hu => hu ▸ ht
  refine Norm.keeps_iff.2 fun c s hs => ?_
  rcases hresolved : s.aliases.lookup name with - | t
  · by_cases hopen : name ∈ c.resolvingAliases
    · rw [exec_aliasType_open _ hresolved hopen]
      refine ⟨fun t s' heq => ?_, fun _ _ heq => (by cases heq)⟩
      cases heq
      exact ⟨⟨by simp, fun _ => nodup_strings_of_single rfl⟩, hs⟩
    · rw [exec_aliasType_new _ hresolved hopen]
      exact Norm.keeps_iff.1 hnew c s hs
  · rw [exec_aliasType_resolved _ hresolved]
    have ht := hs.2.aliases _ (mem_of_lookup hresolved)
    exact ⟨fun u s' heq => (by cases heq; exact ⟨ht, hs⟩), fun _ _ heq => (by cases heq)⟩

/-- What a name denotes.  If it has the form that the file shows to have different keys, it has. -/
lemma keeps_namedType (name : String) {args : List Ty} (hargs : ∀ t ∈ args, n.Allows t) :
    n.Keeps (namedType ask name args) fun t => n.Allows t ∧
      (n.IsKeyedAlias name ∨ (aliasesOf n.root).lookup name = none ∧
        (∀ declaration, (enumsOf n.root).lookup name = some declaration →
          HasDistinctValues declaration) → t.strings.Nodup) := by
  refine keeps_read.bind fun x hx => ?_
  rw [hx.aliases, hx.enums]
  split
  · rename_i declaration hlookup
    refine (keeps_aliasType hask hdistinct hlookup).mono fun t ht => ⟨ht.1, fun h => ?_⟩
    rcases h with hkeyed | ⟨hnone, -⟩
    · exact ht.2 hkeyed
    · rw [hnone] at hlookup
      cases hlookup
  · rename_i declaration hnone henum
    have hunion : n.Keeps (do makeUnion ask (← enumTypes name declaration)) n.Allows :=
      (keeps_enumTypes name _).bind fun ts hts => keeps_makeUnion hask hts
    have hkeyed : n.Keeps (do makeUnion ask (← enumTypes name declaration)) fun t =>
        n.Allows t ∧ (HasDistinctValues declaration → t.strings.Nodup) := by
      refine hunion.and fun c s t s' hrun hvalues => ?_
      obtain ⟨ts, s₁, hts, hu⟩ := exec_bind_eq_ok.1 hrun
      exact nodup_strings_of_enumTypes hvalues hts hu
    refine hkeyed.mono fun t ht => ⟨ht.1, fun h => ?_⟩
    rcases h with ⟨_, _, hlookup, -⟩ | ⟨-, hvalues⟩
    · rw [hnone] at hlookup
      cases hlookup
    · exact ht.2 (hvalues declaration henum)
  · split
    case h_5 => exact keeps_pure ⟨(Ty.isNormal_named name).2 hargs, fun _ => nodup_strings_of_single rfl⟩
    all_goals exact keeps_pure ⟨trivial, fun _ => nodup_strings_of_single rfl⟩

lemma keeps_genericOf (name : String) {args : List Ty} (hargs : ∀ t ∈ args, n.Allows t)
    (hkey : n.strict → name = "Record" → ∀ key value, args = [key, value] → key.strings.Nodup) :
    n.Keeps (genericOf ask name args) n.Allows := by
  unfold genericOf
  split
  case h_5 t _ => exact keeps_pure (Ty.isNormal_promise.2 (hargs t (by simp)))
  case h_6 key value =>
    exact keeps_recordType (hargs value (by simp)) fun hstrict => hkey hstrict rfl key value rfl
  case h_7 t _ | h_8 t _ | h_9 t _ => exact keeps_newObject none (hargs t (by simp))
  case h_10 t _ => exact keeps_filterUnion hask _ (hargs t (by simp))
  case h_11 => exact keeps_selectedType hask _ _ _
  case h_12 => exact keeps_selectedType hask _ _ _
  case h_13 => exact (keeps_namedType hask hdistinct name hargs).mono fun t ht => ht.1
  case h_1 t _ | h_2 t _ | h_3 t _ | h_4 t _ =>
    exact keeps_pure (Ty.isNormal_array.2 (hargs t (by simp)))

variable (hrecords : n.strict → HasKeyedRecords n.root)

include hrecords

lemma keeps_genericType (hc : Source.Within n.root c) (hkind : c.kind = .genericType) :
    n.Keeps (genericType ask c) n.Allows := by
  refine (keeps_typeArguments hask hc).bind fun args hargs => ?_
  refine keeps_genericOf hask hdistinct _ hargs.1 fun hstrict hname =>
    hargs.2 (hrecords hstrict) hkind ?_
  rcases htext : (c.child? .name).map Cursor.text with - | text
  · rw [htext] at hname
    exact absurd hname (by decide)
  · rw [htext] at hname
    exact congrArg some hname

lemma keeps_denotation (hc : Source.Within n.root c) : n.Keeps ( denotation ask c) n.Allows := by
  have hhead : n.Keeps (denotedBy ask c.named.head?) n.Allows :=
    keeps_denotedBy hask fun d hd => hc.named (List.mem_of_head? hd)
  have hall : n.Keeps (denotedAll ask c.named) fun ts => ∀ t ∈ ts, n.Allows t :=
    keeps_denotedAll hask fun d hd => hc.named hd
  have hbody (hkind : c.kind ∈ [Source.Kind.objectType, .interfaceBody]) :
      n.Keeps (objectOf ask c none) n.Allows :=
    keeps_objectOf hask none hc fun hstrict => hdistinct hstrict c hc hkind
  unfold denotation
  split
  case h_1 | h_2 | h_3 | h_4 => exact hhead
  case h_5 =>
    refine keeps_pure ?_
    cases Primitive.ofName? c.text <;> trivial
  case h_6 => exact keeps_literalType fun _ hd => hc.named (List.mem_of_head? hd)
  case h_9 => exact hall.bind fun ts hts => keeps_makeUnion hask hts
  case h_10 => exact hall.bind fun ts hts => keeps_intersectionType hask hts
  case h_11 => exact hhead.bind fun t ht => keeps_pure ht
  case h_12 => exact hall.bind fun ts hts => keeps_pure (Ty.isNormal_tuple.2 hts)
  case h_13 hkind => exact hbody (by simp [hkind])
  case h_14 hkind => exact hbody (by simp [hkind])
  case h_15 => exact (keeps_namedType hask hdistinct c.text (by simp)).mono fun t ht => ht.1
  case h_16 => exact keeps_nestedType c
  case h_17 hkind => exact keeps_genericType hask hdistinct hrecords hc hkind
  case h_20 => exact keeps_typeQuery hask hc
  all_goals exact keeps_pure (by simp [Ty.null, Ty.undefined])

omit hrecords

/-- A name denotes different keys if it has the form for that. -/
lemma keeps_denotation_name (hkind : c.kind = .typeName)
    (hkeyed : n.IsKeyedAlias c.text ∨ (aliasesOf n.root).lookup c.text = none ∧
      ∀ declaration, (enumsOf n.root).lookup c.text = some declaration →
        HasDistinctValues declaration) :
    n.Keeps ( denotation ask c) fun t => t.strings.Nodup := by
  rw [ denotation, hkind]
  exact (keeps_namedType hask hdistinct c.text (by simp)).mono fun t ht => ht.2 hkeyed

end

/-! ## The types of expressions -/

section

variable {n : Norm}

lemma allows_someFunction : n.Allows .someFunction := trivial

lemma allows_mapValue? {t : Ty} (h : n.Allows t) : n.Allows (t.mapValue?.getD .any) := by
  cases t with
  | map value => exact h
  | _ => trivial

/-- What reads the request gives normal types. -/
lemma isNormal_requestResult? {method : String} {given : Bool} {t : Ty}
    (h : requestResult? method given = some t) : n.Allows t := by
  unfold requestResult? at h
  dsimp only at h
  split at h
  all_goals cases h
  all_goals cases given
  all_goals trivial

lemma allows_methodResult (receiver : Cursor) (method : String) (given : Bool) :
    n.Allows (methodResult receiver method given) := by
  unfold methodResult
  dsimp only
  split
  · rename_i t ht
    split at ht
    · exact isNormal_requestResult? ht
    · cases ht
  · split_ifs <;> trivial

end

section

variable {n : Norm} {ask : Answers} {c : Cursor} {role : Source.Role} (hask : n.Answers ask)

include hask

lemma keeps_typeOf? {e : Option Cursor} (he : ∀ d, e = some d → Source.Within n.root d) :
    n.Keeps (typeOf? ask e) n.Allows := by
  cases e with
  | none => exact keeps_pure trivial
  | some e => exact hask.typeOf e (he e rfl)

lemma keeps_part (hc : Source.Within n.root c) : n.Keeps (typeOf? ask (c.child? role)) n.Allows :=
  keeps_typeOf? hask fun _ hd => hc.child hd

lemma keeps_firstPart (hc : Source.Within n.root c) :
    n.Keeps (typeOf? ask c.named.head?) n.Allows :=
  keeps_typeOf? hask fun _ hd => hc.named (List.mem_of_head? hd)

lemma keeps_nameType (hc : Source.Within n.root c) : n.Keeps (nameType ask c) n.Allows := by
  unfold nameType
  split
  · exact keeps_pure trivial
  · split
    · exact keeps_pure trivial
    · rename_i d hdeclaration
      have hd := hc.declaration hdeclaration
      split
      case h_1 =>
        split
        · exact keeps_denoted hask (hd.child (by assumption))
        · exact keeps_pure trivial
        · rename_i value _ hvalue
          refine (hask.typeOf value (hd.child hvalue)).bind fun t ht => ?_
          split
          · exact keeps_pure ht
          · exact keeps_widen hask ht
      case h_2 =>
        split
        · exact keeps_denoted hask (hd.child (by assumption))
        · exact keeps_pure trivial
      case h_3 =>
        split
        · exact (keeps_denoted hask (hd.child (by assumption))).bind fun t ht =>
            keeps_withUndefined hask ht
        · exact keeps_pure trivial
      case h_6 =>
        refine keeps_pure ?_
        split
        · exact allows_someFunction
        · trivial
      all_goals exact keeps_pure (by simp)

/-! ## Objects and members -/

lemma keeps_literalMember (hc : Source.Within n.root c) :
    n.Keeps (literalMember ask c) fun ps => ∀ p ∈ ps, n.Allows p.type := by
  unfold literalMember
  dsimp only
  split
  · split
    · exact keeps_pure (by simp)
    · exact (keeps_part hask hc).bind fun t ht => (keeps_widen hask ht).bind fun u hu =>
        keeps_pure (by simpa using hu)
  · exact (keeps_nameType hask hc).bind fun t ht => (keeps_widen hask ht).bind fun u hu =>
      keeps_pure (by simpa using hu)
  · refine keeps_pure fun p hp => ?_
    obtain ⟨name, -, rfl⟩ := List.mem_map.1 hp
    exact allows_someFunction
  · exact (keeps_firstPart hask hc).bind fun t _ =>
      (keeps_propertiesOf hask t).mono fun ps hps => hps.1
  · exact keeps_pure (by simp)

lemma keeps_objectLiteralType (hc : Source.Within n.root c) :
    n.Keeps (objectLiteralType ask c) n.Allows := by
  refine (keeps_mapM_all fun m hm => keeps_literalMember hask (hc.named hm)).bind fun lists hlists =>
    keeps_newObject none (lists_mergeProperties fun p hp => ?_)
  obtain ⟨ps, hps, hp⟩ := List.mem_flatten.1 hp
  exact hlists ps hps p hp

lemma keeps_arrayLiteralType (hc : Source.Within n.root c) :
    n.Keeps (arrayLiteralType ask c) n.Allows := by
  unfold arrayLiteralType
  dsimp only
  split
  · exact keeps_pure trivial
  · refine (keeps_mapM_all fun e he => ?_).bind fun ts hts =>
      (keeps_makeUnion hask hts).bind fun u hu => keeps_pure hu
    exact (hask.typeOf e (hc.named (List.mem_of_mem_filter he))).bind fun t ht =>
      keeps_widen hask ht

lemma keeps_propertyType {t : Ty} (ht : n.Allows t) (name : String) :
    n.Keeps (propertyType ask t name) n.Allows := by
  have hlength : n.Keeps (hasLength ask t) fun _ => True := by
    unfold hasLength
    split
    · exact keeps_pure trivial
    · exact (keeps_elementType? hask ht).bind fun _ _ => keeps_pure trivial
  unfold propertyType
  extract_lets last
  have hlast (b : Bool) : n.Keeps (last b) n.Allows := by
    dsimp only [last]
    split
    · exact keeps_pure trivial
    · refine (keeps_filterUnion hask _ ht).bind fun u _ => ?_
      refine (keeps_propertiesOf hask u).bind fun ps hps => ?_
      split
      · rename_i p hp
        exact keeps_pure (hps.1 p (List.mem_of_find?_eq_some hp))
      · exact keeps_pure (allows_mapValue? ht)
  split
  · exact hlength.bind fun b _ => hlast b
  · exact (keeps_pure (R := fun _ => True) trivial).bind fun b _ => hlast b

lemma keeps_memberType (hc : Source.Within n.root c) : n.Keeps (memberType ask c) n.Allows := by
  unfold memberType
  split
  · exact keeps_pure trivial
  · rename_i name object hmember
    split
    · exact keeps_enumMemberType _ _
    · exact (hask.typeOf object (hc.member hmember)).bind fun t ht => keeps_propertyType hask ht name

lemma keeps_elementAccessType (hc : Source.Within n.root c) :
    n.Keeps (elementAccessType ask c) n.Allows := by
  refine (keeps_part hask hc).bind fun t ht => (keeps_elementType? hask ht).bind fun e he => ?_
  split
  · exact keeps_pure (he _ rfl)
  · exact keeps_pure (allows_mapValue? ht)

/-! ## Calls and operators -/

lemma keeps_functionResult (hc : Source.Within n.root c) :
    n.Keeps (functionResult ask c) n.Allows := by
  unfold functionResult
  split
  · exact keeps_pure trivial
  · rename_i f hf
    obtain ⟨d, hd, hfunction⟩ := Option.bind_eq_some_iff.1 hf
    have hwithin : Source.Within n.root f := (hc.declaration hd).declaredFunction hfunction
    split
    · rename_i annotation hannotation
      exact keeps_denoted hask (hwithin.child hannotation)
    · exact keeps_pure trivial
    · rename_i body _ hbody
      split
      · exact keeps_pure trivial
      · refine (hask.typeOf body (hwithin.child hbody)).bind fun t ht => keeps_pure ?_
        split
        · exact Ty.isNormal_promise.2 ht
        · exact ht

lemma keeps_callType (hc : Source.Within n.root c) : n.Keeps (callType ask c) n.Allows := by
  unfold callType
  split
  · exact keeps_pure trivial
  · rename_i callee hcallee
    dsimp only
    split
    · split
      · exact keeps_pure (allows_methodResult _ _ _)
      · exact keeps_pure trivial
    · split
      case h_6 => exact keeps_functionResult hask (hc.child hcallee).unwrap
      all_goals exact keeps_pure trivial
    · exact keeps_pure trivial

lemma keeps_constructedType (hc : Source.Within n.root c) :
    n.Keeps (constructedType ask c) n.Allows := by
  refine (keeps_typeArguments hask hc).bind fun args hargs => ?_
  split
  · refine keeps_pure (Ty.isNormal_array.2 ?_)
    rcases hhead : args.head? with - | t
    · trivial
    · exact hargs.1 t (List.mem_of_head? hhead)
  · exact keeps_pure ((Ty.isNormal_named _).2 hargs.1)

lemma keeps_binaryType (hc : Source.Within n.root c) : n.Keeps (binaryType ask c) n.Allows := by
  unfold binaryType
  dsimp only
  split
  · exact keeps_pure trivial
  · split
    · exact keeps_pure trivial
    · split
      · refine (keeps_part hask hc).bind fun l _ => (keeps_part hask hc).bind fun r _ => ?_
        split
        · exact keeps_pure trivial
        · split
          · exact keeps_pure trivial
          · exact keeps_pure trivial
      · split
        · exact (keeps_part hask hc).bind fun l hl => (keeps_filterUnion hask _ hl).bind fun l hl =>
            (keeps_part hask hc).bind fun r hr => keeps_makeUnion hask (by simpa using ⟨hl, hr⟩)
        · split
          · exact keeps_part hask hc
          · exact keeps_pure trivial

omit hask in
lemma keeps_unaryType (hc : Source.Within n.root c) : n.Keeps (unaryType c) n.Allows := by
  unfold unaryType
  split
  case h_4 =>
    refine (keeps_ofNumbers _).bind fun v hv => ?_
    split
    · exact keeps_pure (numberOf_of_negatedNumber? hc hv)
    · exact keeps_pure trivial
  all_goals exact keeps_pure trivial

lemma keeps_castType (hc : Source.Within n.root c) : n.Keeps (castType ask c) n.Allows := by
  unfold castType
  split
  · rename_i types _ _ hnamed
    have htypes : Source.Within n.root types := hc.named (by simp [hnamed])
    split
    · rename_i t hhead
      exact keeps_denoted hask (htypes.named (List.mem_of_head? hhead))
    · exact keeps_pure trivial
  · rename_i type _ hnamed _
    exact keeps_denoted hask (hc.named (by simp [hnamed]))
  · rename_i value hnamed _
    exact hask.typeOf value (hc.named (by simp [hnamed]))
  · exact keeps_pure trivial

lemma keeps_expressionType (hc : Source.Within n.root c) :
    n.Keeps (expressionType ask c) n.Allows := by
  unfold expressionType
  split
  case h_1 | h_2 =>
    refine keeps_pure ?_
    cases c.stringValue? <;> trivial
  case h_3 hkind =>
    refine (keeps_ofNumbers _).bind fun v hv => ?_
    split
    · exact keeps_pure (numberOf_of_read hc hkind hv)
    · exact keeps_pure trivial
  case h_9 => exact keeps_nameType hask hc
  case h_10 | h_11 => exact keeps_firstPart hask hc
  case h_12 | h_13 => exact keeps_castType hask hc
  case h_14 => exact (keeps_firstPart hask hc).bind fun t ht => keeps_filterUnion hask _ ht
  case h_15 =>
    refine (keeps_firstPart hask hc).bind fun t ht => ?_
    split
    · exact keeps_pure ht
    · exact keeps_pure ht
  case h_16 => exact keeps_objectLiteralType hask hc
  case h_17 => exact keeps_arrayLiteralType hask hc
  case h_18 => exact keeps_memberType hask hc
  case h_19 => exact keeps_elementAccessType hask hc
  case h_20 => exact keeps_callType hask hc
  case h_21 => exact keeps_constructedType hask hc
  case h_22 =>
    exact (keeps_part hask hc).bind fun yes hyes => (keeps_part hask hc).bind fun no hno =>
      keeps_makeUnion hask (by simpa using ⟨hyes, hno⟩)
  case h_23 => exact keeps_binaryType hask hc
  case h_24 => exact keeps_unaryType hc
  case h_26 => exact keeps_part hask hc
  case h_27 => exact keeps_typeOf? hask fun _ hd => hc.named (List.mem_of_getLast? hd)
  case h_28 =>
    refine keeps_pure ?_
    split
    · exact allows_someFunction
    · trivial
  all_goals exact keeps_pure (by simp [Ty.null, Ty.undefined, Ty.number])

lemma keeps_resolvedType (hc : Source.Within n.root c) :
    n.Keeps (resolvedType ask c) n.Allows := by
  refine keeps_read.bind fun x _ => ?_
  split
  · exact keeps_pure trivial
  · exact (keeps_expressionType hask hc).withReader fun x hx => ⟨hx.aliases, hx.enums⟩

end

/-! ## Answers -/

/-- **All answers keep to the norm**, at every depth. -/
theorem answers_answer {n : Norm} (hdistinct : n.strict → HasDistinctMembers n.root)
    (hrecords : n.strict → HasKeyedRecords n.root) (d : Nat) : n.Answers (answer d) := by
  induction d with
  | zero =>
    have hthrow {α : Type} {R : α → Prop} : n.Keeps (throw .exhausted : Infer α) R :=
      keeps_throw (Norm.excuses_of_ne (by simp))
    exact ⟨fun _ _ => hthrow, fun _ _ => hthrow, fun _ => hthrow, fun _ _ => hthrow⟩
  | succ d ih =>
    refine ⟨fun c hc => keeps_resolvedType ih hc, fun e he => ?_, fun t =>
      keeps_objectProperties ih t, fun t ht => keeps_displayText ih ht⟩
    have hnormal := keeps_denotation ih hdistinct hrecords he
    by_cases hkeyed : IsKeyed n.root e
    case neg => exact hnormal.mono fun t ht => ⟨ht, fun h => absurd h hkeyed⟩
    refine Norm.Keeps.mono (Norm.Keeps.both hnormal ?_) fun t ht => ⟨ht.1, fun _ => ht.2⟩
    cases hkeyed with
    | single hkind =>
      exact (hnormal.and fun c s t s' hrun => unionMembers?_eq_none_of_kind hkind hrun).mono
        fun t ht => nodup_strings_of_single ht.2
    | spelled hspells =>
      exact (hnormal.and fun c s t s' hrun =>
        nodup_strings_of_spells (d := d + 1) hspells hrun).mono fun t ht => ht.2
    | enumeration hkind hnone hvalues =>
      exact keeps_denotation_name ih hdistinct hkind (.inr ⟨hnone, hvalues⟩)
    | aliased hkind hlookup hne hvalue hkeyed =>
      exact keeps_denotation_name ih hdistinct hkind (.inl ⟨_, _, hlookup, hne, hvalue, hkeyed⟩)

end RouteScribe.Typing
