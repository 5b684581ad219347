import RouteScribe.Proofs.Document.QueryParameters
import RouteScribe.Proofs.Route.ObjectSchemas

/-!
# From query reads to query parameters

A handler reads the query in two ways: by the name of a parameter, or as a whole, into a variable whose
annotation says which parameters there are.  The body is walked once, and each node takes the query so
far to the next one.  `Handler.Gathers` is such a walk, freed from the run that it belongs to, and the
rest is induction on it: a name that is read is there from then on, and a name is required only if the
annotation of a variable lists it.

Each record of a file comes from a registration whose handler gathers its query (`Reports`), and the
operation of the record declares all parameters of its query, each once.
-/

namespace RouteScribe

namespace Typing

open Infer
open Source (Node Cursor)

/-! ## What runs find -/

/-- Work that asks for types only to inspect them, and what holds of its result, whatever was asked
before. -/
structure Finds (root : Node) (d : Nat) {α : Type} (x : Infer α) (R : α → Prop) : Prop where
  inquiry : Inquiry root x
  holds : ∀ ⦃s a s'⦄, Reached root s → runs root s x d = (.ok a, s') → R a

section

variable {α β : Type} {root : Node} {d : Nat} {x : Infer α} {s s' : Store}

lemma Reached.of_runs {out : Except Failure α} (hs : Reached root s) (hx : Inquiry root x)
    (h : runs root s x d = (out, s')) : Reached root s' := by
  have hafter := Reached.after d hs hx
  rwa [h] at hafter

lemma Finds.bind {f : α → Infer β} {R : α → Prop} {R' : β → Prop} (hx : Finds root d x R)
    (hf : ∀ a, Finds root d (f a) fun b => R a → R' b) : Finds root d (x >>= f) R' where
  inquiry := hx.inquiry.bind fun a => (hf a).inquiry
  holds := by
    intro s b s' hs hrun
    obtain ⟨a, s₁, hfirst, hrest⟩ := exec_bind_eq_ok.1 hrun
    exact (hf a).holds (hs.of_runs hx.inquiry hfirst) hrest (hx.holds hs hfirst)

lemma Finds.mono {R R' : α → Prop} (hx : Finds root d x R) (h : ∀ a, R a → R' a) :
    Finds root d x R' where
  inquiry := hx.inquiry
  holds := fun _ a _ hs hrun => h a (hx.holds hs hrun)

lemma finds_pure {a : α} {R : α → Prop} (h : R a) : Finds root d (pure a) R where
  inquiry := inquiry_pure a
  holds := by
    intro s b s' _ hrun
    cases hrun
    exact h

lemma Inquiry.finds (hx : Inquiry root x) : Finds root d x fun _ => True where
  inquiry := hx
  holds := fun _ _ _ _ _ => trivial

lemma finds_mapM {f : α → Infer β} {l : List α} {R : α → β → Prop}
    (h : ∀ a ∈ l, Finds root d (f a) (R a)) : Finds root d (l.mapM f) (List.Forall₂ R l) := by
  induction l with
  | nil =>
    rw [List.mapM_nil]
    exact finds_pure .nil
  | cons a l ih =>
    have hrest := ih fun b hb => h b (List.mem_cons_of_mem _ hb)
    rw [List.mapM_cons]
    exact (h a List.mem_cons_self).bind fun b => hrest.bind fun bs =>
      finds_pure fun hbs hb => .cons hb hbs

end

/-- The schema that the type of an annotation has, when it is asked for after some questions. -/
def Annotates (root : Node) (d : Nat) (e : Cursor) (s : Schema) : Prop :=
  ∃ before after, Reached root before ∧
    runs root before (denoted e >>= schemaOf) d = (.ok s, after)

section

variable {β : Type} {root : Node} {d : Nat} {e : Cursor}

/-- Work that goes on with the schema of an annotation. -/
lemma finds_ascribed {f : Schema → Infer β} {R : β → Prop}
    (he : Source.Within root e)
    (hf : ∀ s, Finds root d (f s) fun b => Annotates root d e s → R b) :
    Finds root d (do
      let t ← denoted e
      let s ← schemaOf t
      f s) R := by
  have hschema : Finds root d (denoted e >>= schemaOf) (Annotates root d e) :=
    ⟨.denoted he .schema, fun before s after hs hrun => ⟨before, after, hs, hrun⟩⟩
  have hwork := hschema.bind hf
  rwa [bind_assoc] at hwork

/-- The object schema of an annotation requires properties that it has. -/
lemma Annotates.present (hroot : root.Legible) (he : Source.Within root e)
    {properties : List (String × Schema)} {required : List String} {nullable : Bool}
    (h : Annotates root d e (.object properties required nullable)) :
    ∀ name ∈ required, name ∈ Table.names properties := by
  obtain ⟨before, after, hreached, hrun⟩ := h
  have hyields : Yields root after (denoted e >>= schemaOf)
      fun s => s.Everywhere after.Explains :=
    (yields_denoted hroot he).after fun t => yields_schemaOf hroot t
  obtain ⟨-, -, hexplained⟩ :=
    hyields (of_ofFile root d).within hreached.within hrun
  exact (Schema.everywhere_object.1 (hexplained (.refl after))).1.present

end

end Typing

namespace Handler

open Source (Node Cursor Within)
open Typing

variable {root : Node} {d : Nat} {context : Option String} {c : Cursor} {q q' : Route.Query}
  {name : String} {nodes : List Cursor}

/-! ## Steps of a walk -/

/-- A call reads the query parameter of a name. -/
def ReadsName (context : Option String) (c : Cursor) (name : String) : Prop :=
  isRequestCall context "query" c = true ∧
    c.callArguments.head?.bind Cursor.stringValue? = some name

instance : Decidable (ReadsName context c name) := inferInstanceAs (Decidable (_ ∧ _))

/-- A variable takes what a query call gives, and its annotation has a schema. -/
def DeclaresQuery (root : Node) (d : Nat) (context : Option String) (c : Cursor) (s : Schema) : Prop :=
  c.kind = .variableDeclarator ∧
    ∃ value call e, c.child? .value = some value ∧ awaitedCall? value = some call ∧
      isRequestCall context "query" call = true ∧ c.child? .type = some e ∧
      Annotates root d e s

/-- What a node does to the query. -/
inductive Step (root : Node) (d : Nat) (context : Option String) (c : Cursor) :
    Route.Query → Route.Query → Prop
  | declared {q : Route.Query} {s : Schema} :
    DeclaresQuery root d context c s → Step root d context c q (addObject q s)
  | named {q : Route.Query} {name : String} :
    ReadsName context c name → Step root d context c q (addName q name)
  | other {q : Route.Query} :
    (∀ name, ¬ReadsName context c name) → Step root d context c q q

/-- What nodes do to the query, one after the other. -/
inductive Gathers (root : Node) (d : Nat) (context : Option String) :
    List Cursor → Route.Query → Route.Query → Prop
  | nil {q : Route.Query} : Gathers root d context [] q q
  | cons {c : Cursor} {nodes : List Cursor} {q q₁ q' : Route.Query} :
    Step root d context c q q₁ → Gathers root d context nodes q₁ q' →
      Gathers root d context (c :: nodes) q q'

lemma ReadsName.kind (h : ReadsName context c name) : c.kind = .callExpression := by
  have hcall := h.1
  unfold isRequestCall at hcall
  rw [Bool.and_eq_true] at hcall
  exact eq_of_beq hcall.1

lemma names_addObject {s : Schema} (h : name ∈ Table.names q.properties) :
    name ∈ Table.names (addObject q s).properties := by
  cases s with
  | object properties required n => exact Table.mem_names_putAll.2 (.inl h)
  | _ => exact h

lemma mem_names_addName {read : String} :
    name ∈ Table.names (addName q read).properties ↔ name ∈ Table.names q.properties ∨ name = read := by
  rw [addName, Table.names_put]
  split
  · rename_i hread
    exact ⟨.inl, fun h => h.elim id fun heq => heq ▸ hread⟩
  · rw [List.mem_append, List.mem_singleton]

/-- A name stays once it is there. -/
lemma Step.names (h : Step root d context c q q') (hname : name ∈ Table.names q.properties) :
    name ∈ Table.names q'.properties := by
  cases h with
  | declared _ => exact names_addObject hname
  | named _ => exact mem_names_addName.2 (.inl hname)
  | other _ => exact hname

/-- A name that is read is there. -/
lemma Step.mem_of_reads (h : Step root d context c q q') (hread : ReadsName context c name) :
    name ∈ Table.names q'.properties := by
  cases h with
  | declared hdeclares =>
    have hkind := hdeclares.1
    rw [hread.kind] at hkind
    cases hkind
  | named hread' =>
    have heq : some name = some _ := hread.2.symm.trans hread'.2
    exact mem_names_addName.2 (.inr (Option.some.inj heq))
  | other hnone => exact absurd hread (hnone name)

/-- A name is required before, or a variable is declared with an object type that lists it. -/
lemma Step.required (h : Step root d context c q q') (hname : name ∈ q'.required) :
    name ∈ q.required ∨ ∃ properties required nullable,
      DeclaresQuery root d context c (.object properties required nullable) ∧ name ∈ required := by
  cases h with
  | @declared s hdeclares =>
    cases s with
    | object properties required n =>
      exact (mem_mergedNames hname).imp_right fun h => ⟨_, _, _, hdeclares, h⟩
    | _ => exact .inl hname
  | named _ => exact .inl hname
  | other _ => exact .inl hname

/-- No name is required twice. -/
lemma Step.once (h : Step root d context c q q') (hq : q.required.Nodup) : q'.required.Nodup := by
  cases h with
  | @declared s hdeclares =>
    cases s with
    | object properties required n => exact nodup_mergedNames required hq
    | _ => exact hq
  | named _ => exact hq
  | other _ => exact hq

/-- All names that are required are there. -/
lemma Step.present (hroot : root.Legible) (hc : Within root c) (h : Step root d context c q q')
    (hq : ∀ name ∈ q.required, name ∈ Table.names q.properties) :
    ∀ name ∈ q'.required, name ∈ Table.names q'.properties := by
  intro name hname
  cases h with
  | @declared s hdeclares =>
    cases s with
    | object properties required n =>
      obtain ⟨-, value, call, e, -, -, -, he, hannotates⟩ := hdeclares
      rcases mem_mergedNames hname with hold | hnew
      · exact names_addObject (hq name hold)
      · have hpresent := hannotates.present hroot (hc.child he) name hnew
        exact Table.mem_names_putAll.2 (.inr hpresent)
    | _ => exact hq name hname
  | named _ => exact mem_names_addName.2 (.inl (hq name hname))
  | other _ => exact hq name hname

/-! ## Whole walks -/

lemma Gathers.names (h : Gathers root d context nodes q q')
    (hname : name ∈ Table.names q.properties) : name ∈ Table.names q'.properties := by
  induction h with
  | nil => exact hname
  | cons hstep _ ih => exact ih (hstep.names hname)

/-- **No read is lost**: every name that is read at some node is there in the end. -/
lemma Gathers.mem_of_reads (h : Gathers root d context nodes q q') (hc : c ∈ nodes)
    (hread : ReadsName context c name) : name ∈ Table.names q'.properties := by
  induction h with
  | nil => cases hc
  | cons hstep hrest ih =>
    rcases List.mem_cons.1 hc with rfl | hc
    · exact hrest.names (hstep.mem_of_reads hread)
    · exact ih hc

/-- A name is required before, or some variable is declared with an object type that lists it. -/
lemma Gathers.required (h : Gathers root d context nodes q q') (hname : name ∈ q'.required) :
    name ∈ q.required ∨ ∃ c ∈ nodes, ∃ properties required nullable,
      DeclaresQuery root d context c (.object properties required nullable) ∧ name ∈ required := by
  induction h with
  | nil => exact .inl hname
  | cons hstep _ ih =>
    rcases ih hname with hfirst | ⟨c, hc, hlisted⟩
    · exact (hstep.required hfirst).imp_right fun hlisted => ⟨_, List.mem_cons_self, hlisted⟩
    · exact .inr ⟨c, List.mem_cons_of_mem _ hc, hlisted⟩

lemma Gathers.once (h : Gathers root d context nodes q q') (hq : q.required.Nodup) :
    q'.required.Nodup := by
  induction h with
  | nil => exact hq
  | cons hstep _ ih => exact ih (hstep.once hq)

lemma Gathers.present (hroot : root.Legible) (hnodes : ∀ c ∈ nodes, Within root c)
    (h : Gathers root d context nodes q q')
    (hq : ∀ name ∈ q.required, name ∈ Table.names q.properties) :
    ∀ name ∈ q'.required, name ∈ Table.names q'.properties := by
  induction h with
  | nil => exact hq
  | cons hstep _ ih =>
    have hfirst := hstep.present hroot (hnodes _ List.mem_cons_self) hq
    exact ih (fun c hc => hnodes c (List.mem_cons_of_mem _ hc)) hfirst

/-! ## Runs -/

/-- What a declaration does to the query. -/
lemma finds_readDeclarator (r : Request) (hc : Within root c) (hkind : c.kind = .variableDeclarator) :
    Finds root d (readDeclarator context r c) fun r' =>
      Step root d context c r.query r'.query := by
  have hother : Step root d context c r.query r.query :=
    .other fun name hread => by
      have hcall := hread.kind
      rw [hkind] at hcall
      cases hcall
  unfold readDeclarator
  split
  · exact finds_pure hother
  · rename_i value call hcall
    obtain ⟨value', hvalue, hcall⟩ := Option.bind_eq_some_iff.1 hcall
    obtain ⟨call', hcall, hpair⟩ := Option.map_eq_some_iff.1 hcall
    cases hpair
    have hwithin : Within root value := hc.child hvalue
    extract_lets read
    have hread (declared : Option Schema) : Finds root d (read declared) fun r' =>
        r'.query = declared.elim r.query fun s =>
          if isRequestCall context "query" call then addObject r.query s else r.query := by
      -- The body that is found on the way does not matter for the query.
      have hbody (x : Infer (Option Schema)) (hx : Inquiry root x) (query : Route.Query) :
          Finds root d (x >>= fun body => pure ({ body, query } : Request)) fun r' =>
            r'.query = query :=
        hx.finds.bind fun body => finds_pure fun _ => rfl
      dsimp only [read]
      by_cases hjson : (r.body.isNone && isRequestCall context "json" call) = true
      · simp only [hjson, if_true]
        rcases declared with - | s
        · have hschema : Inquiry root (typeOf value >>= schemaOf) := .typeOf hwithin .schema
          have hwork := hschema.finds.bind fun s =>
            (hbody (pure (some s)) (.pure _) r.query).mono fun r' h _ => h
          rwa [bind_assoc] at hwork
        · exact hbody _ (.pure _) _
      · simp only [hjson]
        rcases declared with - | s
        · exact hbody _ (.pure _) _
        · exact hbody _ (.pure _) _
    rcases he : c.child? .type with - | e
    · exact (hread none).mono fun r' h => by rw [h]; exact hother
    · refine finds_ascribed (hc.child he) fun s => (hread (some s)).mono fun r' h hs => ?_
      rw [h]
      dsimp only [Option.elim_some]
      split
      · rename_i hquery
        exact .declared ⟨hkind, value, call, e, hvalue, hcall, hquery, he, hs⟩
      · exact hother

/-- What a call does to the query. -/
lemma step_readCall (r : Request) :
    Step root d context c r.query (readCall context r c).query := by
  unfold readCall
  dsimp only
  split
  · rename_i hcall
    rcases hname : c.callArguments.head?.bind Cursor.stringValue? with - | name
    · refine .other fun name hread => ?_
      have hsome := hread.2
      rw [hname] at hsome
      cases hsome
    · exact .named ⟨hcall, hname⟩
  · rename_i hcall
    exact .other fun name hread => hcall hread.1

/-- The body of a handler gathers the query, node by node. -/
lemma finds_request (hc : Within root c) :
    Finds root d (request context c) fun r =>
      Gathers root d context c.walk ⟨[], []⟩ r.query := by
  have hwalk (f : Request → Cursor → Infer Request) (nodes : List Cursor)
      (hf : ∀ r, ∀ c ∈ nodes, Finds root d (f r c) fun r' => Step root d context c r.query r'.query)
      (r : Request) :
      Finds root d (nodes.foldlM f r) fun r' => Gathers root d context nodes r.query r'.query := by
    induction nodes generalizing r with
    | nil =>
      rw [List.foldlM_nil]
      exact finds_pure .nil
    | cons c nodes ih =>
      have hrest := ih fun r c hc => hf r c (List.mem_cons_of_mem _ hc)
      rw [List.foldlM_cons]
      exact (hf r c List.mem_cons_self).bind fun r₁ => (hrest r₁).mono fun r' hgathers hstep =>
        .cons hstep hgathers
  refine hwalk _ _ (fun r d' hd => ?_) ⟨none, ⟨[], []⟩⟩
  have hother (hkind : d'.kind ≠ .callExpression) : Step root d context d' r.query r.query :=
    .other fun name hread => hkind hread.kind
  split
  · rename_i hkind
    exact finds_readDeclarator r (hc.walk hd) hkind
  · exact finds_pure (step_readCall r)
  · rename_i hdeclarator hcall
    exact finds_pure (hother hcall)

end Handler

namespace Route

open Source (Node Cursor Within)
open Typing
open Handler (ReadsName DeclaresQuery Gathers)

variable {root : Node} {d : Nat} {c : Cursor} {r : Record}

/-! ## Records -/

/-- The body of the handler of a registration. -/
def handlerBody? (c : Cursor) : Option Cursor := (handler? c).bind (·.child? .body)

/-- The name that the handler of a registration gives to its context. -/
def handlerContext? (c : Cursor) : Option String := (handler? c).bind Cursor.firstParameter?

/-- A record is that of a registration, and has the query that its handler gathers. -/
structure Reports (root : Node) (d : Nat) (c : Cursor) (r : Record) : Prop where
  registers : registration? c = some (r.method, r.path)
  gathers : ∀ body, handlerBody? c = some body → ∃ q,
    Gathers root d (handlerContext? c) body.walk ⟨[], []⟩ q ∧
      r.query = if q.properties.isEmpty then none else some q
  silent : handlerBody? c = none → r.query = none

lemma finds_recordOf {method : Method} {path : String} (hc : Within root c)
    (h : registration? c = some (method, path)) :
    Finds root d (recordOf method path c) (Reports root d c) := by
  unfold recordOf
  dsimp only
  split
  · rename_i body hbody
    obtain ⟨handler, hhandler, hchild⟩ := Option.bind_eq_some_iff.1 hbody
    have hwithin : Within root body := (within_handler? hc hhandler).child hchild
    refine (Handler.inquiry_responses _ hwithin).finds.bind fun responses => ?_
    refine (Handler.finds_request hwithin).bind fun request => ?_
    refine finds_pure fun hgathers _ => ⟨h, fun body' hbody' => ⟨request.query, ?_, rfl⟩, fun hnone => ?_⟩
    · obtain rfl : body = body' := Option.some.inj (hbody.symm.trans hbody')
      exact hgathers
    · exact absurd (hbody.symm.trans hnone) (by simp)
  · rename_i hnone
    refine finds_pure ⟨h, fun body hbody => ?_, fun _ => rfl⟩
    exact absurd (hnone.symm.trans hbody) (by simp)

/-- Routes that are found node by node are found one after the other. -/
lemma exists_of_flatten {α β : Type} {f : α → Bool} {R : α → β → Prop} {all : Prop} {nodes : List α}
    {found : List (List β)}
    (h : List.Forall₂ (fun c results => ∃ routes : List α, routes.Sublist ([c].filter f) ∧
      (all → routes = [c].filter f) ∧ List.Forall₂ R routes results) nodes found) :
    ∃ routes : List α, routes.Sublist (nodes.filter f) ∧ (all → routes = nodes.filter f) ∧
      List.Forall₂ R routes found.flatten := by
  induction h with
  | nil => exact ⟨[], .refl _, fun _ => rfl, .nil⟩
  | @cons c results nodes found hc _ ih =>
    obtain ⟨first, hfirst, hall₁, hresults⟩ := hc
    obtain ⟨rest, hrest, hall₂, hfound⟩ := ih
    have hfilter : (c :: nodes).filter f = [c].filter f ++ nodes.filter f :=
      List.filter_append (p := f) [c] nodes
    refine ⟨first ++ rest, ?_, fun h => ?_, List.rel_append hresults hfound⟩
    · rw [hfilter]
      exact hfirst.append hrest
    · rw [hfilter, hall₁ h, hall₂ h]

lemma exists_right_of_forall₂ {α β : Type} {R : α → β → Prop} {as : List α} {bs : List β}
    (h : List.Forall₂ R as bs) {a : α} (ha : a ∈ as) : ∃ b ∈ bs, R a b := by
  induction h with
  | nil => cases ha
  | @cons a' b as bs hab _ ih =>
    rcases List.mem_cons.1 ha with rfl | ha
    · exact ⟨b, List.mem_cons_self, hab⟩
    · obtain ⟨b', hb', hrelated⟩ := ih ha
      exact ⟨b', List.mem_cons_of_mem _ hb', hrelated⟩

/-- The calls of a file that have the shape of a registration, in the order of the text. -/
def registrations (root : Node) : List Cursor :=
  (Cursor.ofRoot root).walk.filter fun c => (registration? c).isSome

/-- The records of a file are those of its registrations, or of those that the policy admits. -/
lemma finds_recordsOf (p : Policy) :
    Finds root d (recordsOf p (.ofRoot root)) fun records =>
      ∃ routes : List Cursor, routes.Sublist (registrations root) ∧
        (p.routerTypes = none → routes = registrations root) ∧
        List.Forall₂ (Reports root d) routes records := by
  refine (finds_mapM (R := fun c records => ∃ routes : List Cursor,
      routes.Sublist ([c].filter fun c => (registration? c).isSome) ∧
      (p.routerTypes = none → routes = [c].filter fun c => (registration? c).isSome) ∧
      List.Forall₂ (Reports root d) routes records) fun c hc => ?_).bind
    fun found => finds_pure exists_of_flatten
  · have hwithin : Within root c := Within.root.walk hc
    split
    · rename_i hnone
      exact finds_pure ⟨[], List.nil_sublist _, fun _ => by simp [hnone], .nil⟩
    · rename_i method path hsome
      have hkept : [c].filter (fun c => (registration? c).isSome) = [c] := by simp [hsome]
      have hadmits : Finds root d (p.admits c) fun admitted =>
          p.routerTypes = none → admitted = true := by
        refine ⟨inquiry_admits p hwithin, fun s admitted s' hs hrun hany => ?_⟩
        unfold Policy.admits at hrun
        rw [hany] at hrun
        cases hrun
        rfl
      rw [hkept]
      refine hadmits.bind fun admitted => ?_
      cases admitted with
      | false =>
        exact finds_pure fun hany => ⟨[], List.nil_sublist _, fun h => absurd (hany h) (by simp), .nil⟩
      | true =>
        exact (finds_recordOf hwithin hsome).bind fun r => finds_pure fun hr _ =>
          ⟨[c], .refl _, fun _ => rfl, .cons hr .nil⟩

/-! ## Documents -/

section

open Document

variable {routes : List Cursor} {records : List Record} {name : String} {q : Query}

/-- The query of a record has parameters, and requires some of them, each once. -/
lemma Reports.wellFormed (hroot : root.Legible) (hc : Within root c) (h : Reports root d c r)
    (hquery : r.query = some q) :
    q.properties ≠ [] ∧ q.required.Nodup ∧ ∀ name ∈ q.required, name ∈ Table.names q.properties := by
  rcases hbody : handlerBody? c with - | body
  · rw [h.silent hbody] at hquery
    cases hquery
  · obtain ⟨handler, hhandler, hchild⟩ := Option.bind_eq_some_iff.1 hbody
    have hwithin : Within root body := (within_handler? hc hhandler).child hchild
    obtain ⟨q', hgathers, hq⟩ := h.gathers body hbody
    rw [hq] at hquery
    split at hquery
    · cases hquery
    · rename_i hsome
      cases hquery
      refine ⟨fun hempty => hsome (by rw [hempty]; rfl), hgathers.once List.nodup_nil, ?_⟩
      exact hgathers.present hroot (fun c hc => hwithin.walk hc) fun name hname => by cases hname

/-- A name that a handler reads is a parameter of the query of its record. -/
lemma Reports.exists_query (h : Reports root d c r) {body e : Cursor}
    (hbody : handlerBody? c = some body) (he : e ∈ body.walk)
    (hread : ReadsName (handlerContext? c) e name) :
    ∃ q, r.query = some q ∧ name ∈ Table.names q.properties := by
  obtain ⟨q, hgathers, hq⟩ := h.gathers body hbody
  have hname := hgathers.mem_of_reads he hread
  refine ⟨q, ?_, hname⟩
  rw [hq, if_neg]
  intro hempty
  rw [List.isEmpty_iff.1 hempty] at hname
  cases hname

/-- A name that is required is listed by the annotation of a variable. -/
lemma Reports.exists_declared (h : Reports root d c r) (hquery : r.query = some q)
    (hname : name ∈ q.required) :
    ∃ body, handlerBody? c = some body ∧ ∃ e ∈ body.walk, ∃ properties required nullable,
      DeclaresQuery root d (handlerContext? c) e (.object properties required nullable) ∧
        name ∈ required := by
  rcases hbody : handlerBody? c with - | body
  · rw [h.silent hbody] at hquery
    cases hquery
  · obtain ⟨q', hgathers, hq⟩ := h.gathers body hbody
    rw [hq] at hquery
    split at hquery
    · cases hquery
    · cases hquery
      rcases hgathers.required hname with hnone | hlisted
      · cases hnone
      · exact ⟨body, rfl, hlisted⟩

/-- **No query read is lost between a handler and the document.**  Where the analysis comes to an end, no
status is infinite and no number is too long, there are records.  They are those of the registrations, in
order, or of those that the policy admits, and they have a document unless a status is too long to be
written.  A name that a handler reads at any depth is declared by the operation of its route exactly once;
a record with a query has parameters, and requires some of them, each once; and a parameter is marked as
required only if a handler of the operation declares a variable for the query, whose annotation has the
schema of an object that lists the name. -/
theorem queries_of_legible {program : Node} (hlegible : program.Legible) (p : Policy) :
    (Ends (runs program .empty (recordsOf p (.ofRoot program))) → ¬InfiniteStatus program →
      ¬LongNumber program → ∃ records, ∀ᶠ d in Filter.atTop, analyzeTo d p program = .ok records) ∧
    ∀ d records, analyzeTo d p program = .ok records →
      ∃ routes : List Cursor, routes.Sublist (registrations program) ∧
        (p.routerTypes = none → routes = registrations program) ∧
        List.Forall₂ (fun call r => registration? call = some (r.method, r.path)) routes records ∧
        (∀ r ∈ records, ∀ q, r.query = some q → q.properties ≠ [] ∧ q.required.Nodup ∧
          ∀ name ∈ q.required, name ∈ Table.names q.properties) ∧
        ∀ info, ((assemble? info records).isNone ↔
            ∃ r ∈ records, ∃ s ∈ r.responses, Numeral.isLongInt (statusOf s) = true) ∧
          ∀ document, assemble? info records = some document →
          (∀ call ∈ routes, ∀ method path body, registration? call = some (method, path) →
            handlerBody? call = some body → ∀ e ∈ body.walk, ∀ name,
            ReadsName (handlerContext? call) e name →
            ∃ operation, operationAt? document (template path) method.name = some operation ∧
              (parameterNames "query" operation).count name = 1) ∧
          ∀ path method operation, operationAt? document path method = some operation →
            ∀ name ∈ requiredParameterNames "query" operation,
            ∃ call ∈ routes, ∃ method' path', registration? call = some (method', path') ∧
              template path' = path ∧ method'.name = method ∧
              ∃ body, handlerBody? call = some body ∧
              ∃ e ∈ body.walk, ∃ properties required nullable,
                DeclaresQuery program d (handlerContext? call) e
                  (.object properties required nullable) ∧ name ∈ required := by
  refine ⟨exists_records_of_legible hlegible, fun d records hok => ?_⟩
  obtain ⟨routes, hsublist, hall, hreports⟩ := (finds_recordsOf p).holds .empty (Prod.ext hok rfl)
  have hwithin (call : Cursor) (hcall : call ∈ routes) : Within program call :=
    Within.root.walk (List.mem_of_mem_filter (hsublist.subset hcall))
  refine ⟨routes, hsublist, hall, hreports.imp fun _ _ h => h.registers, ?_,
    fun info => ⟨isNone_assemble? info records, fun document hdocument => ⟨?_, ?_⟩⟩⟩
  · intro r hr q hquery
    obtain ⟨call, hcall, hreport⟩ := exists_right_of_forall₂ hreports.flip hr
    exact hreport.wellFormed hlegible (hwithin call hcall) hquery
  · obtain rfl := eq_assemble_of_some info records hdocument
    intro call hcall method path body hregistered hbody e he name hread
    obtain ⟨r, hr, hreport⟩ := exists_right_of_forall₂ hreports hcall
    obtain ⟨rfl, rfl⟩ : r.method = method ∧ r.path = path :=
      Prod.mk.inj (Option.some.inj (hreport.registers.symm.trans hregistered))
    have hoperation := operationAt?_assemble info records (template r.path) r.method
    rw [if_pos ⟨r, hr, rfl⟩] at hoperation
    refine ⟨_, hoperation, List.count_eq_one_of_mem nodup_queryNames (mem_queryNames.2 ?_)⟩
    exact ⟨r, by simp [groupOf, hr, operationKey], hreport.exists_query hbody he hread⟩
  · obtain rfl := eq_assemble_of_some info records hdocument
    intro path method operation hoperation name hname
    obtain ⟨first, hfirst, rfl, rfl⟩ :=
      (isSome_operationAt? info records path method).1 (by rw [hoperation]; rfl)
    rw [operationAt?_assemble, if_pos ⟨first, hfirst, rfl⟩] at hoperation
    cases hoperation
    obtain ⟨r, hr, q, hquery, hrequired⟩ := exists_of_mem_requiredQueryNames hname
    obtain ⟨hr, hkey⟩ := List.mem_filter.1 hr
    obtain ⟨htemplate, hmethod⟩ := Prod.mk.inj (of_decide_eq_true hkey)
    obtain ⟨call, hcall, hreport⟩ := exists_right_of_forall₂ hreports.flip hr
    exact ⟨call, hcall, r.method, r.path, hreport.registers, htemplate, by rw [hmethod],
      hreport.exists_declared hquery hrequired⟩

/-- The handler of some registration under a path reads a name. -/
def ReadAt (program : Node) (path name : String) : Prop :=
  ∃ call ∈ registrations program, registration? call = some (.get, path) ∧
    ∃ body ∈ handlerBody? call, ∃ e ∈ body.walk, ReadsName (handlerContext? call) e name

instance {program : Node} {path name : String} : Decidable (ReadAt program path name) :=
  inferInstanceAs (Decidable (∃ call ∈ registrations program, registration? call = some (.get, path) ∧
    ∃ body ∈ handlerBody? call, ∃ e ∈ body.walk, ReadsName (handlerContext? call) e name))

/-- A route that reads a parameter by its name, and answers with a status. -/
def queryText (status : String) : String :=
  "app.get('/a', (c) => c.json(c.req.query('n'), " ++ status ++ "))
"

/-- The document of the route declares the parameter that its handler reads. -/
theorem queries_of_queryText : ∃ program, Source.parse .plain (queryText "201") = some program ∧
    program.Legible ∧ ReadAt program "/a" "n" ∧
    (∃ records, ∀ᶠ d in Filter.atTop, analyzeTo d .any program = .ok records) ∧
    ∃ records document operation, analyze .any program = .ok records ∧
      assemble? defaultInfo records = some document ∧
      operationAt? document (template "/a") "get" = some operation ∧
      (parameterNames "query" operation).count "n" = 1 := by
  obtain ⟨program, hprogram, hfree, hfinite, hshort, hread, hwritten⟩ : ∃ program,
      Source.parse .plain (queryText "201") = some program ∧ QueryFree program ∧
      ¬InfiniteStatus program ∧ ¬LongNumber program ∧ ReadAt program "/a" "n" ∧
      ((analyze .any program).toOption.any fun records => !records.any hasLongStatus) = true :=
    exists_program (by decide +kernel)
  have hlegible : program.Legible := Source.legible_of_parse hprogram
  have hends := (inquiry_recordsOf .any program).ends .empty (.inl hfree)
  obtain ⟨hexists, hqueries⟩ := queries_of_legible hlegible .any
  refine ⟨program, hprogram, hlegible, hread, hexists hends hfinite hshort, ?_⟩
  rcases hrecords : analyze .any program with e | records
  · rw [hrecords] at hwritten
    cases hwritten
  rw [hrecords] at hwritten
  have hwritten : records.any hasLongStatus = false := by simpa [Except.toOption] using hwritten
  have hdocument : assemble? defaultInfo records = some (assemble defaultInfo records) := by
    rw [assemble?, hwritten]
    rfl
  obtain ⟨routes, -, hall, -, -, hdocuments⟩ := hqueries depthBound records hrecords
  obtain ⟨hreads, -⟩ := (hdocuments defaultInfo).2 _ hdocument
  obtain ⟨call, hcall, hregistered, body, hbody, e, he, hread⟩ := hread
  obtain ⟨operation, hoperation, honce⟩ := hreads call (by rwa [hall rfl]) .get "/a" body hregistered
    hbody e he "n" hread
  exact ⟨records, _, operation, rfl, hdocument, hoperation, honce⟩

/-- **A read is lost with the whole document** when the handler gives an infinite status: there are no
records of the file, at any depth. -/
theorem no_queries_of_infiniteStatus : ∃ program,
    Source.parse .plain (queryText "1e400") = some program ∧ ReadAt program "/a" "n" ∧
      ∀ d records, analyzeTo d .any program ≠ .ok records := by
  obtain ⟨program, hparse, hread, hinfinite⟩ : ∃ program,
      Source.parse .plain (queryText "1e400") = some program ∧ ReadAt program "/a" "n" ∧
      InfiniteStatus program :=
    exists_program (by decide +kernel)
  refine ⟨program, hparse, hread, fun d records hok => ?_⟩
  exact stuck_recordsOf rfl hinfinite .empty records _ (Prod.ext hok rfl)

end

end Route

end RouteScribe
