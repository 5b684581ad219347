import RouteScribe.Proofs.Typing.TameExpression

/-!
# When inference comes to an end

All queries are tame (`asks_answer`), and so is the description of types by schemas
(`tame_schemaOf`).  What a run does to the store is shown first, by induction on the depth; that it
comes to an end follows by induction on what remains to do.  At each level the four queries are
taken in the order in which they ask each other without leaving less to do: properties, displays by
the weight of types, types of expressions, and type expressions by their size.
-/

namespace RouteScribe.Typing

open Filter Infer
open Source (Node Cursor)

/-! ## The queries -/

section

variable {α : Type} {w : Setting} {m m' n : Nat} {c : Context}

/-- A size that all nodes of the file are below. -/
def Setting.large (w : Setting) : Nat := w.root.size + 1

/-- An object that the store does not have has no properties. -/
lemma exec_properties_missing {s : Store} {id : Nat} (d : Nat) (hid : s.objects.size ≤ id) :
    (answer (d + 1) _ (.properties (.object id))).exec c s = (.ok (some []), s) := by
  have hinfo : (objectProperties (answer d) (.object id)).exec c s = _ :=
    exec_bind_ok (exec_objectInfo id)
  rwa [Array.getElem?_eq_none hid] at hinfo

lemma noneMissing_answer : NoneMissing answer := by
  intro d c s id hid
  cases d with
  | zero => exact .inr rfl
  | succ d => exact .inl (exec_properties_missing d hid)

lemma noneMissing_const (d : Nat) : NoneMissing fun _ => answer d :=
  fun _ => noneMissing_answer d

/-- Where no end is asked for, what remains to do does not matter. -/
lemma Tame.atLevel {x : Nat → Infer α} (h : Tame w m c n x) (hE : ¬w.ending) :
    Tame w m' c n x :=
  ⟨h.spends, fun hE' => absurd hE' hE⟩

lemma Asks.atLevel {k : Nat} {asks : Nat → Answers} (h : Asks w m k c asks) (hE : ¬w.ending) :
    Asks w m' k c asks where
  properties t := (h.properties t).atLevel hE
  display t := (h.display t).atLevel hE
  typeOf e he := (h.typeOf e he).atLevel hE
  denoted e he hk := (h.denoted e he hk).atLevel hE

lemma tame_exhausted (hE : ¬w.ending) : Tame w m c n fun _ => (throw .exhausted : Infer α) :=
  ⟨fun _ _ _ hs => spends_self hs _, fun hE' => absurd hE' hE⟩

/-- The aliases of a context are tame if queries are tame inside each of them. -/
lemma tame_aliases {asks : Nat → Answers} (hc : w.Reads c)
    (h : ∀ c, w.Reads c → Asks w m w.large c asks) (name : String) (e : Cursor)
    (hmem : (name, e) ∈ c.aliases) : Tame w (m + 1) c 0 fun d => aliasType (asks d) name e :=
  tame_aliasType hmem (hc _ hmem) (h (c.inAlias name) hc) (Nat.lt_succ_self _)

/-- What queries do to the store, at each depth. -/
lemma asks_const (hE : ¬w.ending) (d : Nat) (hc : w.Reads c) :
    Asks w m w.large c fun _ => answer d := by
  induction d generalizing c m with
  | zero =>
    exact ⟨fun _ => tame_exhausted hE, fun _ => tame_exhausted hE, fun _ _ => tame_exhausted hE,
      fun _ _ _ => tame_exhausted hE⟩
  | succ d ih =>
    have hlarge : w.root.size < w.large := Nat.lt_succ_self _
    have halias := tame_aliases hc fun c hc => ih (m := 0) hc
    refine ⟨fun t => ?_, fun t => ?_, fun e he => ?_, fun e he hk => ?_⟩
    · exact (tame_objectProperties (ih (m := 0) hc) hlarge.le t).atLevel hE
    · refine (tame_displayText (m := 0) (noneMissing_const d) (fun c t hc => (ih hc).properties t)
        (fun c hc => ih hc) hc t fun u _ => (ih hc).display u).atLevel hE
    · exact (tame_resolvedType (m := 0) he (ih hc) hlarge).atLevel hE
    · exact (tame_typeExpression (ih (m := 0) hc) (fun name e hmem => (halias name e hmem).atLevel hE) he
        hk.le).atLevel hE

/-- Statements about stores do not depend on whether an end is asked for. -/
lemma Tame.spends_of_root {w' : Setting} {x : Nat → Infer α} (h : ∀ d, Tame w' m c n fun _ => x d)
    (hroot : w'.root = w.root) (d e : Nat) (s : Store) (hs : s.Within w.root) :
    Spends w n c s ((x d).exec (c.atDepth e) s) := by
  obtain ⟨hwithin, hgrows, hheld, hcredit⟩ := (h d).spends d e s (hroot ▸ hs)
  exact ⟨hroot ▸ hwithin, hgrows, hroot ▸ hheld, hroot ▸ hcredit⟩

/-- A family whose runs all spend little is tame where nothing remains to do. -/
lemma tame_zero {w' : Setting} {x : Nat → Infer α} (h : ∀ d, Tame w' m c n fun _ => x d)
    (hroot : w'.root = w.root) : Tame w 0 c n x :=
  ⟨Tame.spends_of_root h hroot, fun _ _ _ hm => absurd hm (Nat.not_lt_zero _)⟩

/-- A query is tame if its rule is, one level of queries further down. -/
lemma Tame.answer {q : Query α} (h : Tame w m c n fun d => answerWith (answer d) α q) :
    Tame w m c n fun d => Typing.answer d α q where
  spends d e s hs := by
    cases d with
    | zero => exact spends_self hs _
    | succ d => exact h.spends d e s hs
  ends hE s hs hm hb := by
    obtain ⟨out, hne, hgives⟩ := h.ends hE s hs hm ((tendsto_add_atTop_nat 1).eventually hb)
    exact ⟨out, hne, hgives.answer⟩

/-- Queries are tame wherever nothing remains to do. -/
lemma asks_zero (hc : w.Reads c) : Asks w 0 w.large c answer := by
  have hconst (d : Nat) : Asks ⟨w.root, w.bound, False⟩ 0 w.large c fun _ => answer d :=
    asks_const (fun hE => hE) d hc
  exact ⟨fun t => tame_zero (fun d => (hconst d).properties t) rfl,
    fun t => tame_zero (fun d => (hconst d).display t) rfl,
    fun e he => tame_zero (fun d => (hconst d).typeOf e he) rfl,
    fun e he hk => tame_zero (fun d => (hconst d).denoted e he hk) rfl⟩

/-- If queries are tame where less remains to do, they are tame: first for properties, which ask
only where less remains to do, then for displays, by the weight of types. -/
lemma tame_display_succ (h : ∀ c, w.Reads c → Asks w m w.large c answer) (hc : w.Reads c) (t : Ty) :
    Tame w (m + 1) c 0 fun d => answer d _ (.display t) := by
  have hproperties (c : Context) (t : Ty) (hc : w.Reads c) :
      Tame w (m + 1) c 0 fun d => answer d _ (.properties t) :=
    .answer (tame_objectProperties (h c hc) (Nat.le_succ _) t)
  induction hweight : t.weight using Nat.strong_induction_on generalizing t with
  | _ weight ih =>
    refine .answer (tame_displayText noneMissing_answer hproperties h hc t fun u hu => ?_)
    exact ih u.weight (hweight ▸ hu) u rfl

/-- The step of the induction on what remains to do. -/
lemma asks_succ (h : ∀ c, w.Reads c → Asks w m w.large c answer) (hc : w.Reads c) :
    Asks w (m + 1) w.large c answer := by
  have hlarge : w.root.size < w.large := Nat.lt_succ_self _
  have hproperties (t : Ty) : Tame w (m + 1) c 0 fun d => answer d _ (.properties t) :=
    .answer (tame_objectProperties (h c hc) hlarge.le t)
  have htypeOf (e : Cursor) (he : Source.Within w.root e) :
      Tame w (m + 1) c (typeCost w.root.size (w.pending c)) fun d => answer d _ (.typeOf e) :=
    .answer (tame_resolvedType he (h _ hc) hlarge)
  refine ⟨hproperties, tame_display_succ h hc, htypeOf, fun e he _ => ?_⟩
  induction hsize : e.size using Nat.strong_induction_on generalizing e with
  | _ size ih =>
    have hsmaller : Asks w (m + 1) e.size c answer :=
      ⟨hproperties, tame_display_succ h hc, htypeOf, fun e' he' hlt =>
        ih e'.size (hsize ▸ hlt) e' he' (Nat.lt_succ_of_le he'.size_le) rfl⟩
    exact hsize ▸ .answer (tame_typeExpression hsmaller (tame_aliases hc h) he le_rfl)

/-- **Queries are tame**: in a file they spend no more than they may, and they come to an end as long
as the number of objects stays within a bound. -/
theorem asks_answer (w : Setting) (m : Nat) (hc : w.Reads c) : Asks w m w.large c answer := by
  induction m generalizing c with
  | zero => exact asks_zero hc
  | succ m ih => exact asks_succ (fun c hc => ih hc) hc

end

/-! ## Views -/

section

variable {α : Type} {w : Setting} {m n : Nat} {c : Context}

lemma Tame.toDepth {x : Nat → Infer α} (h : Tame w m c n x) :
    Tame w m c n fun d => (x d).toDepth d where
  spends d _ s hs := h.spends d d s hs
  ends hE s hs hm hb := by
    have hb' : Bounded w.bound x c s := by
      filter_upwards [hb] with d hb
      obtain ⟨_, hb⟩ := hb
      exact ⟨d, hb⟩
    obtain ⟨out, hne, hgives⟩ := h.ends hE s hs hm hb'
    exact ⟨out, hne, hgives.toDepth⟩

lemma tame_elementType_ask (hc : w.Reads c) (t : Ty) :
    Tame w m c 0 fun d => (elementType? ask t).toDepth d := by
  have hdisplay := (asks_answer w m hc).display
  match t with
  | .tuple [] => exact tame_pure _
  | .tuple (first :: rest) =>
    simp only [elementType?, toDepth_bind, toDepth_makeUnion]
    exact (tame_makeUnion hdisplay _).toDepth.bind_last fun _ => tame_pure _
  | .primitive _ | .literal _ | .enumMember _ _ _ | .union _ | .array _ | .map _ | .object _
  | .promise _ | .named _ _ | .function _ => exact tame_pure _

lemma tame_view (hc : w.Reads c) (t : Ty) : Tame w m c 0 fun d => (view t).toDepth d := by
  have hasks := asks_answer w m hc
  rw [view_eq]
  cases t.plainView? with
  | some v => exact tame_pure v
  | none =>
    refine (tame_elementType_ask hc t).bind_free fun element => ?_
    rcases element with - | element
    · rcases t.mapValue? with - | value
      · refine (hasks.properties t).toDepth.bind_free fun properties => ?_
        rcases properties with - | properties
        · cases t <;> exact (hasks.display _).toDepth.bind_last fun _ => tame_pure _
        · cases t <;> exact tame_pure _
      · exact tame_pure _
    · exact tame_pure _

/-- The parts that a view shows weigh less than the type, unless it is an object. -/
def Ty.HasParts (t : Ty) : Schema.View Ty Nat → Prop
  | .union members => t = .union members
  | .array part | .map part => part.weight < t.weight
  | .object id _ => ∃ i, id = some i ∧ t = .object i
  | _ => True

lemma weight_of_elementType {t element : Ty} {c : Context} {s s' : Store}
    (h : (elementType? ask t).exec c s = (.ok (some element), s')) : element.weight < t.weight := by
  match t with
  | .array e =>
    cases h
    simp only [Ty.weight]
    omega
  | .tuple [] =>
    cases h
    simp [Ty.any, Ty.weight, Ty.weights]
  | .tuple (first :: rest) =>
    obtain ⟨u, s₁, hu, hpure⟩ := exec_bind_eq_ok.1 h
    cases hpure
    have hle := weight_le_of_makeUnion hu
    simp only [Ty.weight]
    omega
  | .primitive _ | .literal _ | .enumMember _ _ _ | .union _ | .map _ | .object _
  | .promise _ | .named _ _ | .function _ => cases h

/-- Only objects have properties. -/
lemma exists_of_properties {t : Ty} {c : Context} {s s' : Store} {properties : List Property}
    (h : (ask _ (.properties t)).exec c s = (.ok (some properties), s')) : ∃ id, t = .object id := by
  have hanswer : (answer c.depth _ (.properties t)).exec c s = (.ok (some properties), s') := h
  generalize c.depth = d at hanswer
  cases d with
  | zero => cases hanswer
  | succ d =>
    cases t with
    | object id => exact ⟨id, rfl⟩
    | _ => cases hanswer

lemma hasParts_of_partsView {t : Ty} {c : Context} {s s' : Store} {v : Schema.View Ty Nat}
    (h : (partsView t).exec c s = (.ok v, s')) : t.HasParts v := by
  obtain ⟨element, s₁, helement, h⟩ := exec_bind_eq_ok.1 h
  split at h
  · cases h
    exact weight_of_elementType helement
  · rename_i value hvalue
    cases h
    cases t with
    | map value' =>
      cases hvalue
      simp only [Ty.HasParts, Ty.weight]
      omega
    | _ => cases hvalue
  · obtain ⟨properties, s₂, hproperties, h⟩ := exec_bind_eq_ok.1 h
    split at h
    · cases h
      exact ⟨_, rfl, rfl⟩
    · obtain ⟨id, rfl⟩ := exists_of_properties hproperties
      simp_all
    · obtain ⟨text, s₃, -, hpure⟩ := exec_bind_eq_ok.1 h
      cases hpure
      trivial

lemma hasParts_of_view {t : Ty} {c : Context} {s s' : Store} {v : Schema.View Ty Nat}
    (h : (view t).exec c s = (.ok v, s')) : t.HasParts v := by
  rw [view_eq] at h
  split at h
  case h_1 w hw =>
    cases h
    rcases Ty.plainView?_cases hw with ⟨members, rfl, rfl⟩ | ⟨kind, rfl, -⟩ | ⟨rfl, -⟩
    · exact rfl
    · trivial
    · trivial
  case h_2 => exact hasParts_of_partsView h

end

/-! ## Schemas -/

section

variable {α : Type} {w : Setting} {m n : Nat} {c : Context}

open Schema (describeWith synthesize)

lemma tame_describeMembers {describe : Nat → List Nat → Ty → Infer Schema} {inside : List Nat}
    (members : List Property) (h : ∀ u, Tame w m c 0 fun d => (describe d inside u).toDepth d) :
    Tame w m c 0 fun d => (describeMembers (describe d) inside members).toDepth d := by
  simp only [describeMembers, toDepth_bind, toDepth_mapM]
  refine Tame.bind_last (tame_mapM_free fun p _ => ?_) fun _ => tame_pure _
  exact (h p.type).bind_last fun _ => tame_pure _

/-- One level of a schema, from the schemas of the lighter types in it and, for an object, of all
types in it. -/
lemma tame_describeWith {describe : Nat → List Nat → Ty → Infer Schema} {expanding : List Nat}
    {t : Ty} (hc : w.Reads c)
    (hparts : ∀ u : Ty, u.weight < t.weight → Tame w m c 0 fun d => (describe d expanding u).toDepth d)
    (hobject : ∀ id, t = .object id → id ∉ expanding → ∀ u,
      Tame w m c 0 fun d => (describe d (id :: expanding) u).toDepth d) :
    Tame w m c 0 fun d => (describeWith view Ty.isNullish (describe d) expanding t).toDepth d := by
  simp only [describeWith, toDepth_bind]
  refine Tame.mono (Tame.bindOf (P := t.HasParts) (tame_view hc t)
    (fun d e s v s' _ hv => hasParts_of_view (c := (c.atDepth e).atDepth d) hv) fun v hv => ?_)
    (Nat.zero_add 0).le
  cases v with
  | union members =>
    obtain rfl : t = .union members := hv
    have hmember (u : Ty) (hu : u ∈ members.filter fun p => !p.isNullish) :
        Tame w m c 0 fun d => (describe d expanding u).toDepth d := by
      refine hparts u ?_
      have hle := Ty.weight_le_weights (List.mem_of_mem_filter hu)
      simp only [Ty.weight]
      omega
    dsimp only
    generalize members.filter (fun p => !p.isNullish) = rest at hmember
    rcases rest with - | ⟨u, - | ⟨u', rest⟩⟩
    · exact tame_pure _
    · exact (hmember u List.mem_cons_self).bind_last fun _ => tame_pure _
    · simp only [toDepth_bind, toDepth_mapM]
      exact Tame.bind_last (tame_mapM_free hmember) fun _ => tame_pure _
  | array part | map part => exact (hparts part hv).bind_last fun _ => tame_pure _
  | object identity properties =>
    obtain ⟨id, rfl, rfl⟩ := hv
    by_cases hid : id ∈ expanding
    · simp only [List.contains_iff_mem, hid, if_true]
      exact tame_pure _
    · simp only [List.contains_iff_mem, hid, if_false]
      exact tame_describeMembers properties (hobject id rfl hid)
  | primitive _ | undefined | other _ => exact tame_pure _

/-- The schema of a type at a level of description. -/
def describeTo (level : Nat) (expanding : List Nat) (t : Ty) : Infer Schema :=
  synthesize view Ty.isNullish (throw .exhausted) level expanding t

/-- What descriptions do to the store, at each level. -/
lemma tame_describeTo_const (hE : ¬w.ending) (hc : w.Reads c) (level : Nat) (expanding : List Nat)
    (t : Ty) : Tame w m c 0 fun d => (describeTo level expanding t).toDepth d := by
  induction level generalizing expanding t with
  | zero => exact tame_exhausted hE
  | succ level ih =>
    exact tame_describeWith hc (fun u _ => ih expanding u) fun id _ _ u => ih (id :: expanding) u

/-- A family that agrees with a tame one from some depth on, and spends no more before. -/
lemma Tame.of_eventually {x y : Nat → Infer α} (h : Tame w m c n y)
    (hxy : ∀ᶠ d in atTop, x d = y d)
    (hspends : ∀ d e s, s.Within w.root → Spends w n c s ((x d).exec (c.atDepth e) s)) :
    Tame w m c n x where
  spends := hspends
  ends hE s hs hm hb := by
    have hb' : Bounded w.bound y c s := by
      filter_upwards [hb, hxy] with d hb hxy
      rwa [hxy] at hb
    obtain ⟨out, hne, hgives⟩ := h.ends hE s hs hm hb'
    refine ⟨out, hne, ?_⟩
    filter_upwards [hgives, hxy] with d hgives hxy
    rwa [hxy]

/-- An object that the store does not have is described as one without properties. -/
lemma exists_describeTo_missing {s : Store} {id : Nat} (hid : s.objects.size ≤ id)
    (expanding : List Nat) : ∃ schema, ∀ (c : Context) level d,
      (describeTo (level + 1) expanding (.object id)).exec (c.atDepth (d + 1)) s =
        (.ok schema, s) := by
  have hview (c : Context) (d : Nat) :
      (view (.object id)).exec (c.atDepth (d + 1)) s = (.ok (.object (some id) []), s) := by
    have hproperties : (ask _ (.properties (.object id))).exec (c.atDepth (d + 1)) s =
        (.ok (some []), s) := exec_properties_missing d hid
    exact exec_bind_ok hproperties
  by_cases hmem : id ∈ expanding
  · refine ⟨.recursive, fun c level d => ?_⟩
    rw [describeTo, synthesize, describeWith, exec_bind_ok (hview c d)]
    simp only [List.contains_iff_mem, hmem, if_true, exec_pure]
  · refine ⟨.ofProperties [], fun c level d => ?_⟩
    rw [describeTo, synthesize, describeWith, exec_bind_ok (hview c d)]
    simp only [List.contains_iff_mem, hmem, if_false, List.mapM_nil]
    rfl

/-- What descriptions do to the store, whether or not an end is asked for. -/
lemma spends_describeTo (hc : w.Reads c) (level d e : Nat) (expanding : List Nat) (t : Ty) (s : Store)
    (hs : s.Within w.root) :
    Spends w 0 c s (((describeTo level expanding t).toDepth d).exec (c.atDepth e) s) := by
  have hconst := tame_describeTo_const (w := ⟨w.root, w.bound, False⟩) (m := 0) (fun hE => hE) hc
    level expanding t
  obtain ⟨hwithin, hgrows, hheld, hcredit⟩ := hconst.spends d e s hs
  exact ⟨hwithin, hgrows, hheld, hcredit⟩

lemma tame_describeTo_missing (hc : w.Reads c) (k : Nat) (expanding : List Nat) {id : Nat}
    (hid : w.bound ≤ id) :
    Tame w m c 0 fun d => (describeTo (d - k) expanding (.object id)).toDepth d where
  spends d e s hs := spends_describeTo hc (d - k) d e expanding (.object id) s hs
  ends _ s hs _ hb := by
    have hsize : s.objects.size ≤ w.bound := by
      obtain ⟨d, e, hd⟩ := hb.exists
      exact (spends_describeTo hc (d - k) d e expanding (.object id) s hs).grows.size.trans hd
    obtain ⟨schema, hschema⟩ := exists_describeTo_missing (hsize.trans hid) expanding
    refine ⟨(.ok schema, s), by simp, ?_⟩
    filter_upwards [eventually_gt_atTop k] with d hd e
    obtain ⟨level, rfl⟩ : ∃ level, d = level + 1 + k := ⟨d - k - 1, by omega⟩
    have hlevel : level + 1 + k - k = level + 1 := by omega
    rw [hlevel, show level + 1 + k = level + k + 1 by omega]
    exact hschema (c.atDepth e) level (level + k)

/-- **Descriptions are tame**: an object that is being described is not described again, and other
types are described by lighter ones. -/
theorem tame_describeTo (hc : w.Reads c) (k : Nat) (expanding : List Nat) (t : Ty) :
    Tame w m c 0 fun d => (describeTo (d - k) expanding t).toDepth d := by
  induction hcard : (Finset.range w.bound \ expanding.toFinset).card using Nat.strong_induction_on
    generalizing k expanding t with
  | _ card ihcard =>
    induction hweight : t.weight using Nat.strong_induction_on generalizing k t with
    | _ weight ihweight =>
      by_cases hmissing : ∃ id, t = .object id ∧ w.bound ≤ id
      · obtain ⟨id, rfl, hid⟩ := hmissing
        exact tame_describeTo_missing hc k expanding hid
      · push Not at hmissing
        have hlevel : Tame w m c 0 fun d => (describeWith view Ty.isNullish
            (describeTo (d - (k + 1))) expanding t).toDepth d := by
          refine tame_describeWith hc (fun u hu => ?_) fun id ht hnew u => ?_
          · exact ihweight u.weight (hweight ▸ hu) (k + 1) u rfl
          · have hlt := card_sdiff_cons_lt (Finset.mem_range.2 (hmissing id ht)) hnew
            exact ihcard _ (hcard ▸ hlt) (k + 1) (id :: expanding) u rfl
        refine hlevel.of_eventually ?_ ?_
        · filter_upwards [eventually_gt_atTop k] with d hd
          rw [show d - k = d - (k + 1) + 1 by omega]
          rfl
        · exact fun d e s hs => spends_describeTo hc (d - k) d e expanding t s hs

/-- Schemas are tame. -/
lemma tame_schemaOf (hc : w.Reads c) (t : Ty) : Tame w m c 0 fun d => (schemaOf t).toDepth d :=
  tame_describeTo hc 0 [] t

end

end RouteScribe.Typing
