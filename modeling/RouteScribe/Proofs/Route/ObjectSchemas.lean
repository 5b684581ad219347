import RouteScribe.Proofs.Route.UnionSchemas
import RouteScribe.Proofs.Typing.RequiredNames

/-!
# The object schemas of records

All schemas in the records of a file require only properties that they have, and a name that is
required twice comes from an object type that has two mandatory properties of that name
(`required_of_recordsOf`).  A file whose object types and interfaces have no name twice, and whose
records are given keys that are different strings, has no such type.

The types of queries are merged into one table, and so are the fields of a zod object, so that these
require each name once anyway.
-/

namespace RouteScribe

open Typing (Store)

/-! ## Zod objects -/

namespace Zod

variable {final : Store} {z : Zod}

/-- The schema of a zod schema requires names that can be explained. -/
abbrev Explained (final : Store) (z : Zod) : Prop := z.schema.Everywhere final.Explains

lemma explained_unknown {o n : Bool} : (Zod.unknown o n).Explained final :=
  Schema.everywhere_unparsed.2 trivial

/-- The fields of an object stand in a table, so no name is required twice. -/
lemma explained_object {fields : List (String × Zod)} {o n : Bool}
    (h : ∀ f ∈ fields, f.2.Explained final) (hnodup : (Table.names fields).Nodup) :
    (Zod.object fields o n).Explained final := by
  rw [Explained, schema, fieldSchemas_eq_map, requiredFields_eq_map]
  refine Schema.everywhere_object.2 ⟨⟨fun name hname => ?_, .inl ?_⟩, fun p hp => ?_⟩
  · obtain ⟨f, hf, rfl⟩ := List.mem_map.1 hname
    rw [List.map_map]
    exact List.mem_map.2 ⟨f, List.mem_of_mem_filter hf, rfl⟩
  · exact hnodup.sublist (List.filter_sublist.map _)
  · obtain ⟨f, hf, rfl⟩ := List.mem_map.1 hp
    exact h f hf

lemma Explained.marked (h : z.Explained final) (o n : Bool) : (z.marked o n).Explained final := by
  cases z with
  | string | number | boolean => exact Schema.everywhere_primitive.2 trivial
  | unknown => exact explained_unknown
  | array items =>
    cases items with
    | none => exact Schema.everywhere_array.2 ⟨trivial, (Schema.everywhere_array.1 h).2⟩
    | some items => exact Schema.everywhere_array.2 ⟨trivial, (Schema.everywhere_array.1 h).2⟩
  | object fields =>
    obtain ⟨hrequires, hfields⟩ := Schema.everywhere_object.1 h
    exact Schema.everywhere_object.2 ⟨hrequires, hfields⟩

section

variable {read : Option Source.Cursor → Zod} (hread : ∀ c, (read c).Explained final)

include hread

lemma explained_objectOf (call : Source.Cursor) : (objectOf read call).Explained final := by
  unfold objectOf
  split
  · split
    · refine explained_object (fun f hf => ?_) (Table.nodup_ofList _)
      obtain ⟨p, -, hp⟩ := List.mem_filterMap.1 (Table.mem_of_mem_ofList hf)
      obtain ⟨name, -, rfl⟩ := Option.map_eq_some_iff.1 hp
      exact hread _
    · exact explained_unknown
  · exact explained_unknown

lemma explained_build? {name : String} {call : Source.Cursor} (h : build? read name call = some z) :
    z.Explained final := by
  unfold build? at h
  split at h
  case h_4 =>
    cases h
    cases call.callArguments.head? with
    | none => exact Schema.everywhere_array.2 ⟨trivial, Schema.everywhere_unparsed.2 trivial⟩
    | some item => exact Schema.everywhere_array.2 ⟨trivial, hread _⟩
  case h_5 =>
    cases h
    exact explained_objectOf hread call
  case h_6 => cases h
  all_goals
    cases h
    exact Schema.everywhere_primitive.2 trivial

lemma explained_chainFrom (bound : Nat) (o n : Bool) (c : Source.Cursor) :
    (chainFrom read bound o n c).Explained final := by
  induction bound generalizing o n c with
  | zero => exact explained_unknown
  | succ bound ih =>
    unfold chainFrom
    split
    · exact explained_unknown
    · split
      · exact explained_unknown
      · split
        · rename_i name receiver _ _
          rcases hbuilt : build? read name c with - | built
          · exact explained_unknown
          · exact (explained_build? hread hbuilt).marked o n
        · split
          · exact ih _ _ _
          · exact explained_unknown

end

lemma explained_parseFrom (depth : Nat) (c : Option Source.Cursor) :
    (parseFrom depth c).Explained final := by
  induction depth generalizing c with
  | zero => exact explained_unknown
  | succ depth ih =>
    cases c with
    | none => exact explained_unknown
    | some c => exact explained_chainFrom ih _ _ _ _

lemma explained_objectCallSchema? {c : Source.Cursor} {s : Schema} (h : objectCallSchema? c = some s) :
    s.Everywhere final.Explains := by
  have hobject : (objectOf (parseFrom (c.node.size + 1)) c.unwrap).Explained final :=
    explained_objectOf (explained_parseFrom (c.node.size + 1)) c.unwrap
  unfold objectCallSchema? at h
  split at h
  · rename_i heq
    rw [heq] at hobject
    cases h
    exact hobject
  · cases h

end Zod

namespace Handler

open Source (Node Cursor Within)
open Typing Infer

/-! ## Responses -/

/-- The names that the contents of responses require can be explained. -/
def AllExplained (final : Store) (rs : List Route.Response) : Prop :=
  ∀ r ∈ rs, ∀ s, r.content = some s → s.Everywhere final.Explains

section

variable {root : Node} {final : Store} {c : Cursor}

lemma allExplained_nil : AllExplained final [] := by simp [AllExplained]

lemma allExplained_perStatus {codes : List Int} {default : Option Int} {r : Route.Response}
    (h : ∀ s, r.content = some s → s.Everywhere final.Explains) :
    AllExplained final (perStatus codes default r) := by
  intro r' hr' s hs
  unfold perStatus at hr'
  split at hr'
  · cases List.mem_singleton.1 hr'
    exact h s hs
  · obtain ⟨code, -, rfl⟩ := List.mem_map.1 hr'
    exact h s hs

/-- Text and raw bytes have no properties. -/
lemma everywhere_plain {format : Option String} {s : Schema}
    (h : some (Schema.primitive .string format false) = some s) : s.Everywhere final.Explains := by
  cases h
  exact Schema.everywhere_primitive.2 trivial

variable (hroot : root.Legible)

include hroot

lemma yields_statuses (hc : Within root c) : Yields root final (statuses c) fun _ => True :=
  yields_of_sound fun _ => sound_statuses hroot ⟨trivial, trivial⟩ hc fun _ => trivial

lemma yields_blobMediaType? {value : Option Cursor} (hvalue : ∀ d, value = some d → Within root d) :
    Yields root final (blobMediaType? value) fun _ => True :=
  yields_of_sound fun _ => sound_blobMediaType? hroot ⟨trivial, trivial⟩ hvalue

lemma yields_contextResponse (explicit : Option String) (name : String) {value : Option Cursor}
    (codes : List Int) (hvalue : ∀ d, value = some d → Within root d) :
    Yields root final (contextResponse explicit name value codes) (AllExplained final) := by
  unfold contextResponse
  split
  case h_1 =>
    rcases value with - | value
    · exact yields_pure allExplained_nil
    · refine (yields_typeOf hroot (hvalue _ rfl)).after fun t => ?_
      refine (yields_schemaOf hroot t).bind fun content => ?_
      refine (yields_display hroot t).after fun text => yields_pure fun hcontent => ?_
      exact allExplained_perStatus fun s hs => Option.some.inj hs ▸ hcontent
  case h_2 | h_3 => exact yields_pure (allExplained_perStatus fun _ hs => everywhere_plain hs)
  case h_4 =>
    extract_lets plain send
    have hsend (given : Option String) : Yields root final (send given) (AllExplained final) := by
      have hsent (isText : Bool) : Yields root final (if isText then
          return perStatus codes none
            { bare with content := some .text, mediaType := some (explicit.getD "text/plain") }
        else
          return perStatus codes none
            { bare with content := some .binary
                        mediaType := some (given.getD "application/octet-stream") })
          (AllExplained final) := by
        split
        · exact yields_pure (allExplained_perStatus fun _ hs => everywhere_plain hs)
        · exact yields_pure (allExplained_perStatus fun _ hs => everywhere_plain hs)
      rcases value with - | value
      · exact hsent false
      · exact (yields_typeOf hroot (hvalue _ rfl)).after fun t => hsent t.isStringLike
    rcases explicit with - | m
    · exact (yields_blobMediaType? hroot hvalue).after fun given => hsend (nonEmpty? given)
    · exact hsend (some m)
  case h_5 =>
    have hown (own : List Int) : AllExplained final (perStatus own (some 404) bare) :=
      allExplained_perStatus fun s hs => by cases hs
    rcases value with - | value
    · exact yields_pure (hown [])
    · exact (yields_statuses hroot (hvalue _ rfl)).after fun own => yields_pure (hown own)
  case h_6 => exact yields_pure (allExplained_perStatus fun s hs => by cases hs)
  case h_7 => exact yields_pure allExplained_nil

lemma yields_callResponses (context explicit : Option String) (hc : Within root c) :
    Yields root final (callResponses context explicit c) (AllExplained final) := by
  have hresponse (name : String) (codes : List Int) :
      Yields root final (contextResponse explicit name c.callArguments.head? codes)
        (AllExplained final) :=
    yields_contextResponse hroot explicit name codes fun _ => within_head? hc
  unfold callResponses
  rcases c.calledMember? with - | ⟨name, receiver⟩
  · exact yields_pure allExplained_nil
  · dsimp only
    split
    · exact yields_pure allExplained_nil
    · split
      · rename_i code hcode
        exact (yields_statuses hroot (within_getElem? hc hcode)).after (hresponse name)
      · exact hresponse name []

lemma yields_constructedContent? (hc : Within root c) :
    Yields root final (constructedContent? c) fun content =>
      ∀ s, content = some s → s.Everywhere final.Explains := by
  have hcontent (t : Ty) (isBytes : Bool) : Yields root final (
      if isBytes then pure (some .binary)
      else if t.isAny || t.isNullish then pure none
      else do return some (← schemaOf t)) fun content =>
        ∀ s, content = some s → s.Everywhere final.Explains := by
    split
    · exact yields_pure fun _ hs => everywhere_plain hs
    · split
      · exact yields_pure fun s hs => by cases hs
      · exact (yields_schemaOf hroot t).bind fun s => yields_pure fun h s' hs =>
          Option.some.inj hs ▸ h
  refine (yields_typeOf hroot hc).after fun t => ?_
  have hbytes : Yields root final (isBinary t) fun _ => True :=
    yields_of_sound fun _ => sound_isBinary hroot ⟨trivial, trivial⟩ t
  split
  · exact yields_pure fun _ hs => everywhere_plain hs
  · refine hbytes.after fun bytes => ?_
    cases bytes with
    | true => exact hcontent t true
    | false =>
      exact (yields_blobMediaType? hroot fun d hd => Option.some.inj hd ▸ hc).after fun given =>
        hcontent t (nonEmpty? given).isSome

lemma yields_returnedResponses (explicit : Option String) (hc : Within root c) :
    Yields root final (returnedResponses explicit c) (AllExplained final) := by
  unfold returnedResponses
  rcases hbase : c.named.head? with - | base
  · exact yields_pure allExplained_nil
  · have hwithin : Within root base.unwrap := (hc.named (List.mem_of_head? hbase)).unwrap
    have hinit (d : Cursor) (hd : base.unwrap.callArguments[1]? = some d) : Within root d :=
      within_getElem? hwithin hd
    have hmedia : Yields root final (initMediaType? base.unwrap.callArguments[1]?) fun _ => True :=
      yields_of_sound fun _ => sound_initMediaType? hroot ⟨trivial, trivial⟩ hinit
    dsimp -zeta only [Option.map_some]
    extract_lets plain name args init
    split
    · exact yields_pure allExplained_nil
    · refine hmedia.after fun mediaType => ?_
      extract_lets mediaType last
      have hlast (codes : List Int) : Yields root final (last codes) (AllExplained final) := by
        dsimp only [last]
        split
        · rename_i body hbody
          exact (yields_constructedContent? hroot (within_head? hwithin hbody)).bind
            fun content => yields_pure fun h => allExplained_perStatus fun s hs => h s hs
        · exact yields_pure (allExplained_perStatus fun s hs => by cases hs)
      split
      · rename_i code hcode
        exact (yields_statuses hroot (within_of_option? hinit hcode)).after hlast
      · exact hlast []

/-- The responses of a handler. -/
lemma yields_responses (context : Option String) (hc : Within root c) :
    Yields root final (responses context c) (AllExplained final) := by
  have hexplicit : Yields root final (explicitMediaType? context c) fun _ => True :=
    yields_of_sound fun _ => sound_explicitMediaType? hroot ⟨trivial, trivial⟩ context hc
  refine hexplicit.after fun explicit => ?_
  refine (yields_mapM (R := fun _ => AllExplained final) fun d hd => ?_).bind
    fun found => yields_pure fun hfound r hr => ?_
  · split
    · exact yields_callResponses hroot context explicit (hc.walk hd)
    · exact yields_returnedResponses hroot explicit (hc.walk hd)
    · exact yields_pure allExplained_nil
  · obtain ⟨rs, hrs, hr⟩ := List.mem_flatten.1 hr
    exact forall_mem_of_forall₂ hfound rs hrs r hr

end

/-! ## Requests -/

/-- The names that the body and the query of a request require can be explained, and no parameter of
the query is required twice. -/
structure Request.Explained (final : Store) (r : Request) : Prop where
  body : ∀ s, r.body = some s → s.Everywhere final.Explains
  query : r.query.schema.Everywhere final.Explains
  once : r.query.required.Nodup

section

variable {root : Node} {final : Store} {c : Cursor} {r : Request} {q : Route.Query} {s : Schema}
  {context : Option String}

lemma nodup_mergedNames {old : List String} (new : List String) (h : old.Nodup) :
    (new.foldl (fun rs r => if rs.contains r then rs else rs ++ [r]) old).Nodup := by
  rw [foldl_new]
  refine List.nodup_append.2 ⟨h, nodup_eraseDups _, fun a ha b hb hab => ?_⟩
  have hnew : b ∈ new ∧ b ∉ old := by simpa [List.removeAll] using List.mem_eraseDups.1 hb
  exact hnew.2 (hab ▸ ha)

lemma mem_mergedNames {old new : List String} {name : String}
    (h : name ∈ new.foldl (fun rs r => if rs.contains r then rs else rs ++ [r]) old) :
    name ∈ old ∨ name ∈ new := by
  rw [foldl_new] at h
  refine (List.mem_append.1 h).imp_right fun hmem => ?_
  have hnew : name ∈ new ∧ name ∉ old := by simpa [List.removeAll] using List.mem_eraseDups.1 hmem
  exact hnew.1

/-- More parameters in a query. -/
lemma explained_putAll {properties : List (String × Schema)} {required : List String}
    (hq : q.schema.Everywhere final.Explains)
    (hproperties : ∀ p ∈ properties, p.2.Everywhere final.Explains) (honce : required.Nodup)
    (hrequired : ∀ name ∈ required, name ∈ q.required ∨ name ∈ properties.map (·.1)) :
    (Route.Query.mk (Table.putAll q.properties properties) required).schema.Everywhere
      final.Explains := by
  obtain ⟨hrequires, hold⟩ := Schema.everywhere_object.1 hq
  refine Schema.everywhere_object.2 ⟨⟨fun name hname => ?_, .inl honce⟩, fun p hp => ?_⟩
  · exact Table.mem_names_putAll.2 ((hrequired name hname).imp_left (hrequires.present name))
  · exact (Table.mem_of_mem_putAll hp).elim (hold p) (hproperties p)

lemma Request.Explained.addObject (hr : r.Explained final) (hs : s.Everywhere final.Explains) :
    Request.Explained final ⟨r.body, addObject r.query s⟩ := by
  cases s with
  | object properties required n =>
    obtain ⟨hrequires, hproperties⟩ := Schema.everywhere_object.1 hs
    have honce := nodup_mergedNames required hr.once
    refine ⟨hr.body, explained_putAll hr.query hproperties honce fun name hname => ?_, honce⟩
    exact (mem_mergedNames hname).imp_right (hrequires.present name)
  | _ => exact hr

lemma Request.Explained.addName (hr : r.Explained final) (name : String) :
    Request.Explained final ⟨r.body, addName r.query name⟩ where
  body := hr.body
  query := by
    have htext : ∀ p ∈ [(name, Schema.text)], p.2.Everywhere final.Explains := fun p hp => by
      rw [List.mem_singleton.1 hp]
      exact Schema.everywhere_primitive.2 trivial
    exact explained_putAll hr.query htext hr.once fun _ h => .inl h
  once := hr.once

lemma explained_checkedBody? (h : checkedBody? context c = some s) :
    s.Everywhere final.Explains := by
  have hobject {init : Cursor}
      (h : (if Zod.isObjectCall init then Zod.objectCallSchema? init else none) = some s) :
      s.Everywhere final.Explains := by
    split at h
    · exact Zod.explained_objectCallSchema? h
    · cases h
  unfold checkedBody? at h
  obtain ⟨⟨name, target⟩, -, h⟩ := Option.bind_eq_some_iff.1 h
  dsimp only at h
  split at h
  · cases h
  · obtain ⟨first, -, h⟩ := Option.bind_eq_some_iff.1 h
    obtain ⟨call, -, h⟩ := Option.bind_eq_some_iff.1 h
    split at h
    · cases h
    · split at h
      · exact hobject h
      · obtain ⟨init, -, h⟩ := Option.bind_eq_some_iff.1 h
        exact hobject h

lemma Request.Explained.readCall (hr : r.Explained final) (context : Option String) (c : Cursor) :
    (readCall context r c).Explained final := by
  have hbody : ∀ s, (r.body <|> checkedBody? context c) = some s → s.Everywhere final.Explains := by
    intro s hs
    rcases (Option.orElse_eq_some _ _ _).1 hs with hs | ⟨-, hs⟩
    · exact hr.body s hs
    · exact explained_checkedBody? hs
  unfold Handler.readCall
  dsimp only
  split
  · rcases c.callArguments.head?.bind Cursor.stringValue? with - | name
    · exact ⟨hbody, hr.query, hr.once⟩
    · obtain ⟨-, hquery, honce⟩ := hr.addName name
      exact ⟨hbody, hquery, honce⟩
  · exact ⟨hbody, hr.query, hr.once⟩

variable (hroot : root.Legible)

include hroot

lemma yields_readDeclarator (context : Option String) (r : Request) (hc : Within root c) :
    Yields root final (readDeclarator context r c) fun r' => r.Explained final → r'.Explained final := by
  unfold readDeclarator
  split
  · exact yields_pure id
  · rename_i value call hcall
    obtain ⟨value', hvalue, hcall⟩ := Option.bind_eq_some_iff.1 hcall
    obtain ⟨call', -, hpair⟩ := Option.map_eq_some_iff.1 hcall
    have hwithin : Within root value := (Prod.mk.inj hpair).1 ▸ hc.child hvalue
    have hquery (body declared : Option Schema) : r.Explained final →
        (∀ s, body = some s → s.Everywhere final.Explains) →
        (∀ s, declared = some s → s.Everywhere final.Explains) →
        Request.Explained final ⟨body, declared.elim r.query fun s =>
          if isRequestCall context "query" call then addObject r.query s else r.query⟩ := by
      intro hr hbody hdeclared
      rcases declared with - | s
      · exact ⟨hbody, hr.query, hr.once⟩
      · dsimp only [Option.elim_some]
        split
        · obtain ⟨-, hquery, honce⟩ := hr.addObject (hdeclared s rfl)
          exact ⟨hbody, hquery, honce⟩
        · exact ⟨hbody, hr.query, hr.once⟩
    extract_lets read
    have hread (declared : Option Schema) : Yields root final (read declared) fun r' =>
        (∀ s, declared = some s → s.Everywhere final.Explains) → r.Explained final →
          r'.Explained final := by
      dsimp only [read]
      by_cases hjson : (r.body.isNone && isRequestCall context "json" call) = true
      · simp only [hjson, if_true]
        rcases declared with - | s
        · refine (yields_typeOf hroot hwithin).after fun t => ?_
          exact (yields_schemaOf hroot t).bind fun s => yields_pure fun hs hdeclared hr =>
            hquery (some s) none hr (fun s' hs' => Option.some.inj hs' ▸ hs) hdeclared
        · exact yields_pure fun hdeclared hr => hquery (some s) (some s) hr hdeclared hdeclared
      · simp only [hjson]
        rcases declared with - | s
        · exact yields_pure fun hdeclared hr => hquery r.body none hr hr.body hdeclared
        · exact yields_pure fun hdeclared hr => hquery r.body (some s) hr hr.body hdeclared
    rcases hannotation : c.child? .type with - | annotation
    · exact (hread none).mono fun r' h => h (by simp)
    · refine (yields_denoted hroot (hc.child hannotation)).after fun t => ?_
      exact (yields_schemaOf hroot t).bind fun s =>
        (hread (some s)).mono fun r' h hs => h fun s' hs' => Option.some.inj hs' ▸ hs

/-- What the body of a handler reads. -/
lemma yields_request (context : Option String) (hc : Within root c) :
    Yields root final (request context c) (Request.Explained final) := by
  have hnothing : Request.Explained final ⟨none, ⟨[], []⟩⟩ := by
    refine ⟨by simp, Schema.everywhere_object.2 ⟨⟨?_, .inl List.nodup_nil⟩, ?_⟩, List.nodup_nil⟩
    · exact fun _ h => absurd h List.not_mem_nil
    · exact fun _ h => absurd h List.not_mem_nil
  refine (yields_foldlM (R := Request.Explained final) (fun r d hd => ?_) _).mono
    fun r h => h hnothing
  split
  · exact yields_readDeclarator hroot context r (hc.walk hd)
  · exact yields_pure fun hr => hr.readCall context d
  · exact yields_pure id

end

end Handler

namespace Route

open Source (Node Cursor Within)
open Typing Infer

/-! ## Records -/

/-- The schemas of the body, the query and the responses of a route. -/
def Record.schemas (r : Record) : List Schema :=
  r.requestBody.toList ++ (r.query.map Query.schema).toList ++ r.responseSchema.toList ++
    r.responses.filterMap (·.content)

section

variable {root : Node} {final : Store} {c : Cursor}

lemma explained_schemas {r : Record} {request : Handler.Request}
    (hresponses : Handler.AllExplained final r.responses) (hrequest : request.Explained final)
    (hbody : r.requestBody = request.body) (hquery : r.query = request.query?)
    (hresponse : r.responseSchema = r.responses.head?.bind (·.content)) :
    ∀ s ∈ r.schemas, s.Everywhere final.Explains := by
  intro s hs
  simp only [Record.schemas, List.mem_append, Option.mem_toList] at hs
  rcases hs with ((hs | hs) | hs) | hs
  · exact hrequest.body s (hbody ▸ hs)
  · obtain ⟨q, hq, rfl⟩ := Option.map_eq_some_iff.1 hs
    rw [hquery, Handler.Request.query?] at hq
    split at hq
    · cases hq
    · cases hq
      exact hrequest.query
  · obtain ⟨response, hhead, hs⟩ := Option.bind_eq_some_iff.1 (hresponse ▸ hs)
    exact hresponses response (List.mem_of_head? hhead) s hs
  · obtain ⟨response, hmem, hs⟩ := List.mem_filterMap.1 hs
    exact hresponses response hmem s hs

variable (hroot : root.Legible)

include hroot

lemma yields_recordOf (method : Method) (path : String) (hc : Within root c) :
    Yields root final (recordOf method path c) fun r =>
      ∀ s ∈ r.schemas, s.Everywhere final.Explains := by
  unfold recordOf
  dsimp only
  split
  · rename_i body hbody
    obtain ⟨handler, hhandler, hbody⟩ := Option.bind_eq_some_iff.1 hbody
    have hwithin : Within root body := (within_handler? hc hhandler).child hbody
    refine (Handler.yields_responses hroot _ hwithin).bind fun responses => ?_
    refine (Handler.yields_request hroot _ hwithin).bind fun request => ?_
    exact yields_pure fun hrequest hresponses => explained_schemas hresponses hrequest rfl rfl rfl
  · exact yields_pure fun s hs => by simp [Record.schemas, Handler.Request.query?] at hs

/-- **Every name that a schema of a record requires can be explained** by what is known when the file is
analyzed. -/
theorem yields_recordsOf (p : Policy) :
    Yields root final (recordsOf p (.ofRoot root)) fun records =>
      ∀ r ∈ records, ∀ s ∈ r.schemas, s.Everywhere final.Explains := by
  refine (yields_mapM (R := fun _ (records : List Record) =>
      ∀ r ∈ records, ∀ s ∈ r.schemas, s.Everywhere final.Explains) fun c hc => ?_).bind
    fun found => yields_pure fun hfound r hr => ?_
  · have hwithin : Within root c := Within.root.walk hc
    split
    · exact yields_pure (by simp)
    · rename_i method path _
      have hadmits : Yields root final (p.admits c) fun _ => True :=
        yields_of_sound fun _ => sound_admits hroot ⟨trivial, trivial⟩ p hwithin
      refine hadmits.after fun admitted => ?_
      cases admitted with
      | false => exact yields_pure (by simp)
      | true =>
        exact (yields_recordOf hroot method path hwithin).bind fun r =>
          yields_pure fun hr => by simpa using hr
  · obtain ⟨records, hrecords, hr⟩ := List.mem_flatten.1 hr
    exact forall_mem_of_forall₂ hfound records hrecords r hr

end

section

variable {program : Node} {p : Policy} {d : Nat} {records : List Record} {final : Store}

/-- The properties that are known of an object have different names, if the file has none twice. -/
lemma nodup_of_knows (hrun : runs program .empty (recordsOf p (.ofRoot program)) d = (.ok records, final))
    (hdistinct : HasDistinctMembers program) (hrecords : HasKeyedRecords program) {id : Nat}
    {properties : List Property} (hknown : final.Knows id properties) :
    (properties.map (·.name)).Nodup := by
  let n : Norm := ⟨program, True⟩
  have hask : n.Answers ask :=
    answers_ask fun d => answers_answer (fun _ => hdistinct) (fun _ => hrecords) d
  have hkeeps : n.Keeps (recordsOf p (.ofRoot program)) fun _ => True :=
    Inspects.keeps hask (inquiry_recordsOf p program) (t := .any) trivial
  obtain ⟨hok, -⟩ := Norm.keeps_iff.1 hkeeps _ _ ⟨of_ofFile program d, kept_empty⟩
  have hkept : n.Kept final := (hok records final hrun).2.2
  exact (hkept.shapes id (.known properties) hknown).2 trivial

/-- **What object schemas require.**  Take any schema of the body, the query or a response of a route in
the records of a legible tree, and any object schema in it, at any depth.  It requires only properties that it
has.  It requires each of them once, unless it is the schema of an object type two of whose mandatory
properties have the same name; no file without repeated members and record keys has such a type. -/
theorem required_of_recordsOf (hlegible : program.Legible)
    (hrun : runs program .empty (recordsOf p (.ofRoot program)) d = (.ok records, final))
    {r : Record} (hr : r ∈ records) {s : Schema} (hs : s ∈ r.schemas)
    {properties : List (String × Schema)} {required : List String} {nullable : Bool}
    (hoccurs : Schema.Occurs (.object properties required nullable) s) :
    (∀ name ∈ required, name ∈ properties.map (·.1)) ∧
      (required.Nodup ∨
        ∃ id members, final.Knows id members ∧ required = requiredNames members) ∧
      (HasDistinctMembers program → HasKeyedRecords program → required.Nodup) := by
  have hyields : Yields program final (recordsOf p (.ofRoot program)) fun records =>
      ∀ r ∈ records, ∀ s ∈ r.schemas, s.Everywhere final.Explains :=
    yields_recordsOf hlegible p
  have hcontext : (Context.ofFile d (.ofRoot program)).Within program :=
    (of_ofFile program d).within
  obtain ⟨-, -, hexplained⟩ := hyields hcontext Reached.empty.within hrun
  have hrequires : final.Requires properties required :=
    hexplained (.refl final) r hr s hs _ hoccurs
  refine ⟨hrequires.present, hrequires.listed, fun hdistinct hrecords => ?_⟩
  rcases hrequires.listed with hnodup | ⟨id, members, hknown, rfl⟩
  · exact hnodup
  · exact (nodup_of_knows hrun hdistinct hrecords hknown).sublist (List.filter_sublist.map _)

end

/-- A route that answers with a value of the given type. -/
def answerText (type : String) : String :=
  "let x: " ++ type ++ "\napp.get('/a', (c) => c.json(x))\n"

/-- What the first route of a file requires of the object that it answers with. -/
def firstRequired? (program : Node) : Option (List String) :=
  match analyze .any program with
  | .ok (r :: _) =>
    match r.responseSchema with
    | some (.object _ required _) => some required
    | _ => none
  | _ => none

lemma exists_of_firstRequired? {program : Node} {required : List String}
    (h : firstRequired? program = some required) : ∃ records r properties nullable,
      analyze .any program = .ok records ∧ r ∈ records ∧
        r.responseSchema = some (.object properties required nullable) := by
  unfold firstRequired? at h
  split at h
  · rename_i r rest hrun
    split at h
    · rename_i properties required' nullable hschema
      cases h
      exact ⟨_, r, properties, nullable, hrun, List.mem_cons_self, hschema⟩
    · cases h
  · cases h

set_option maxRecDepth 10000 in
/-- An object with a mandatory and an optional property. -/
theorem required_of_answerText : ∃ program records final r properties nullable,
    Source.parse .plain (answerText "\x7b a: string; b?: number \x7d") = some program ∧
      program.Legible ∧ runs program .empty (recordsOf .any (.ofRoot program)) depthBound = (.ok records, final) ∧
      r ∈ records ∧ r.responseSchema = some (.object properties ["a"] nullable) ∧
      HasDistinctMembers program ∧ HasKeyedRecords program ∧
      "a" ∈ properties.map (·.1) ∧ ["a"].Nodup := by
  obtain ⟨program, hparse, hfirst, hnodes⟩ : ∃ program,
      Source.parse .plain (answerText "\x7b a: string; b?: number \x7d") = some program ∧
      firstRequired? program = some ["a"] ∧
      (∀ c ∈ (Cursor.ofRoot program).preorder, c.kind ≠ .genericType ∧
        (c.kind ∈ [Source.Kind.objectType, .interfaceBody] →
          ((declaredNames c).map (·.1)).Nodup)) :=
    exists_program (by decide +kernel)
  have hdistinct : HasDistinctMembers program := fun body hbody =>
    (hnodes body hbody.mem_preorder).2
  have hrecords : HasKeyedRecords program := fun c _ _ hc hgeneric =>
    absurd hgeneric (hnodes c hc.mem_preorder).1
  obtain ⟨records, r, properties, nullable, hanalyze, hr, hschema⟩ := exists_of_firstRequired? hfirst
  have hrun : runs program .empty (recordsOf .any (.ofRoot program)) depthBound =
      (.ok records, (runs program .empty (recordsOf .any (.ofRoot program)) depthBound).2) :=
    Prod.ext hanalyze rfl
  have hmem : .object properties ["a"] nullable ∈ r.schemas := by simp [Record.schemas, hschema]
  have hlegible : program.Legible := Source.legible_of_parse hparse
  obtain ⟨hpresent, -, honce⟩ := required_of_recordsOf hlegible hrun hr hmem .here
  exact ⟨program, records, _, r, properties, nullable, hparse, hlegible, hrun, hr, hschema, hdistinct,
    hrecords, hpresent "a" (by simp), honce hdistinct hrecords⟩

set_option maxRecDepth 10000 in
/-- **Two signatures of one method are required twice.**  The object type of the answer declares the
method twice, and the schema that the record has for it is an object that requires one name twice. -/
theorem required_twice_of_overloads : ∃ program records r properties nullable,
    Source.parse .plain (answerText "\x7b f(a: string): void; f(a: number): void \x7d") = some program ∧
      analyze .any program = .ok records ∧ r ∈ records ∧
      r.responseSchema = some (.object properties ["f", "f"] nullable) ∧ ¬["f", "f"].Nodup := by
  have hspec : (Source.parse .plain
      (answerText "\x7b f(a: string): void; f(a: number): void \x7d")).isSome = true ∧
      firstRequired? (programOf (answerText "\x7b f(a: string): void; f(a: number): void \x7d")) =
        some ["f", "f"] := by
    decide +kernel
  obtain ⟨records, r, properties, nullable, hanalyze, hr, hschema⟩ := exists_of_firstRequired? hspec.2
  exact ⟨_, records, r, properties, nullable, parse_eq_some_programOf hspec.1, hanalyze, hr, hschema,
    by decide⟩

end Route

end RouteScribe
