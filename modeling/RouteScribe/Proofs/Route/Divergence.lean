import RouteScribe.Proofs.Route.Termination
import RouteScribe.Source.Program

/-!
# A file whose analysis does not come to an end

An object type with one property, whose type is the type of the variable that is being declared, has
no end: `SelfTyped` says how such a declaration looks.  Asking for the properties of the object works
out the type of the variable anew, and that is a new object with the same members
(`tries_properties`).  The object is no object that is being described already, so its description
goes on, at every level (`describeTo_selfTyped`), and so does its display (`display_selfTyped`).

`analyzeTo_selfTyped` is the analysis of a file with one such declaration and one route that answers
with the variable.
-/

namespace RouteScribe.Typing

open Infer
open Source (Node Cursor)

/-- A declaration of a variable whose type is an object with one property, and the type of the
property is the type of the variable. -/
@[mk_iff] structure SelfTyped (declaration ascription body member typed query name : Cursor)
    (label : String) : Prop where
  isVariable : declaration.kind = .variableDeclarator
  hasType : declaration.child? .type = some ascription
  isAscription : ascription.kind = .ascription
  hasBody : ascription.named.head? = some body
  isObject : body.kind = .objectType
  hasMember : body.named = [member]
  isProperty : member.kind = .propertySignature
  hasLabel : (member.child? .name).bind Cursor.memberKey? = some label
  isRequired : member.node.hasToken "?" = false
  isTyped : member.child? .type = some typed
  isAscribed : typed.kind = .ascription
  hasQuery : typed.named.head? = some query
  isQuery : query.kind = .typeQuery
  hasName : query.named.head? = some name
  isName : name.kind = .identifier
  isDefined : (name.text == "undefined") = false
  refersBack : name.declaration? = some declaration

instance (declaration ascription body member typed query name : Cursor) (label : String) :
    Decidable (SelfTyped declaration ascription body member typed query name label) :=
  decidable_of_iff' _ (selfTyped_iff ..)

section

variable {declaration ascription body member typed query name : Cursor} {label : String}
  {c : Context} {s : Store}

/-- The store with one more object that has the members of the body. -/
def Store.withMembers (s : Store) (body : Cursor) : Store :=
  { s with objects := s.objects.push ⟨none, .members body⟩ }

/-- A query either uses up its depth, or gives an answer. -/
def Tries {α : Type} (c : Context) (s : Store) (x : Infer α) (a : α) (s' : Store) : Prop :=
  (x.exec c s).1 = .error .exhausted ∨ x.exec c s = (.ok a, s')

/-- A run whose first part uses up its depth. -/
lemma exec_bind_fst_error {α β : Type} {x : Infer α} {f : α → Infer β} {e : Failure}
    (h : (x.exec c s).1 = .error e) : ((x >>= f).exec c s).1 = .error e := by
  rcases hout : x.exec c s with ⟨err | a, s'⟩
  · rw [exec_bind_error hout]
    rw [hout] at h
    exact congrArg Except.error (Except.error.inj h)
  · rw [hout] at h
    cases h

lemma tries_pure {α : Type} (a : α) : Tries c s (pure a) a s := .inr rfl

lemma Tries.bind {α β : Type} {x : Infer α} {f : α → Infer β} {a : α} {b : β} {s₁ s₂ : Store}
    (hx : Tries c s x a s₁) (hf : Tries c s₁ (f a) b s₂) : Tries c s (x >>= f) b s₂ := by
  rcases hx with hx | hx
  · exact .inl (exec_bind_fst_error hx)
  · unfold Tries
    rwa [exec_bind_ok hx]

lemma tries_denoted_ascription (d : Nat) {a : Ty} {s' : Store}
    (hkind : ascription.kind = .ascription) (hbody : ascription.named.head? = some body)
    (h : ∀ d, Tries c s (answer d _ (.denoted body)) a s') :
    Tries c s (answer d _ (.denoted ascription)) a s' := by
  cases d with
  | zero => exact .inl rfl
  | succ d =>
    have hstep : answer (d + 1) _ (.denoted ascription) = answer d _ (.denoted body) := by
      simp only [answer, answerWith, denotation, hkind, hbody, denotedBy]
    rw [hstep]
    exact h d

variable (h : SelfTyped declaration ascription body member typed query name label)

include h

lemma tries_denoted_body (d : Nat) :
    Tries c s (answer d _ (.denoted body)) (.object s.objects.size) (s.withMembers body) := by
  cases d with
  | zero => exact .inl rfl
  | succ d =>
    right
    simp only [answer, answerWith, denotation, h.isObject, objectOf, h.hasMember, List.any_cons,
      h.isProperty]
    rfl

/-- Each time the type of the variable is worked out, it is a new object. -/
lemma tries_typeOf_name {e : Cursor} (d : Nat) (hkind : e.kind = .identifier)
    (hdefined : (e.text == "undefined") = false) (hdeclaration : e.declaration? = some declaration)
    (hopen : e.key ∉ c.resolving) :
    Tries c s (answer d _ (.typeOf e)) (.object s.objects.size) (s.withMembers body) := by
  cases d with
  | zero => exact .inl rfl
  | succ d =>
    have hstep : (answer (d + 1) _ (.typeOf e)).exec c s =
        (answer d _ (.denoted ascription)).exec (c.inExpression e) s := by
      have hresolved : (resolvedType (answer d) e).exec c s =
          (expressionType (answer d) e).exec (c.inExpression e) s := by
        rw [resolvedType, exec_bind_ok exec_read]
        simp only [List.contains_iff_mem, hopen, if_false]
        rfl
      have hname : expressionType (answer d) e = answer d _ (.denoted ascription) := by
        simp only [expressionType, hkind, nameType, hdefined, hdeclaration, h.isVariable, h.hasType]
        rfl
      rw [← hname]
      exact hresolved
    unfold Tries
    rw [hstep]
    exact tries_denoted_ascription d h.isAscription h.hasBody fun d => tries_denoted_body h d

lemma tries_denoted_query {query name : Cursor} (d : Nat) (hkind : query.kind = .typeQuery)
    (hname : query.named.head? = some name) (hidentifier : name.kind = .identifier)
    (hdefined : (name.text == "undefined") = false)
    (hdeclaration : name.declaration? = some declaration) (hopen : name.key ∉ c.resolving) :
    Tries c s (answer d _ (.denoted query)) (.object s.objects.size) (s.withMembers body) := by
  cases d with
  | zero => exact .inl rfl
  | succ d =>
    have hstep : answer (d + 1) _ (.denoted query) = answer d _ (.typeOf name) := by
      simp only [answer, answerWith, denotation, hkind, hname, hidentifier]
      rfl
    rw [hstep]
    exact tries_typeOf_name h d hidentifier hdefined hdeclaration hopen

lemma tries_denoted_typed (d : Nat) (hopen : name.key ∉ c.resolving) :
    Tries c s (answer d _ (.denoted typed)) (.object s.objects.size) (s.withMembers body) :=
  tries_denoted_ascription d h.isAscribed h.hasQuery fun d =>
    tries_denoted_query h d h.isQuery h.hasName h.isName h.isDefined h.refersBack hopen

lemma tries_declaredProperties (d : Nat) (hopen : name.key ∉ c.resolving) :
    Tries c s (declaredProperties (answer d) body) [⟨label, false, .object s.objects.size⟩]
      (s.withMembers body) := by
  have hmember : body.named.filter (fun m =>
      m.kind == .propertySignature || m.kind == .methodSignature) = [member] := by
    rw [h.hasMember]
    simp [h.isProperty]
  unfold declaredProperties
  rw [hmember]
  dsimp only
  rw [List.mapM_cons, List.mapM_nil, h.hasLabel, h.isRequired, h.isTyped, h.isProperty]
  have hproperty : Tries c s (do
      let type ← denotedBy (answer d) (some typed)
      let type ← pure type
      return [({ name := label, optional := false, type } : Property)]) _ _ :=
    (tries_denoted_typed h d hopen).bind ((tries_pure _).bind (tries_pure _))
  exact Tries.bind (Tries.bind hproperty (Tries.bind (tries_pure []) (tries_pure _))) (tries_pure _)

/-- The properties of an object with these members: the one property has a new object as its type,
with these members again. -/
lemma tries_properties (d : Nat) {id : Nat} (hopen : name.key ∉ c.resolving)
    (hid : s.objects[id]? = some ⟨none, .members body⟩) :
    ∃ s', Tries c s (answer d _ (.properties (.object id)))
        (some [⟨label, false, .object s.objects.size⟩]) s' ∧
      s'.objects[s.objects.size]? = some ⟨none, .members body⟩ := by
  let s₁ := s.change id fun o => { o with shape := .known [] }
  have hsize : s₁.objects.size = s.objects.size := Store.size_change s _
  have hlt : id < s.objects.size := (Array.getElem?_eq_some_iff.1 hid).1
  refine ⟨(s₁.withMembers body).change id fun o =>
    { o with shape := .known [⟨label, false, .object s₁.objects.size⟩] }, ?_, ?_⟩
  · cases d with
    | zero => exact .inl rfl
    | succ d =>
      rw [← hsize]
      have hinfo : (objectInfo id).exec c s = (.ok ⟨none, .members body⟩, s) := by
        rw [exec_objectInfo, hid, Option.getD_some]
      have hbegun : Tries c s₁ (do
          let properties ← declaredProperties (answer d) body
          modifyObject id fun o => { o with shape := .known properties }
          return some properties) _ _ :=
        (tries_declaredProperties h d hopen).bind (Tries.bind (.inr rfl) (tries_pure _))
      exact Tries.bind (.inr hinfo) (Tries.bind (.inr rfl) hbegun)
  · rw [← hsize]
    have hne : ¬id = s₁.objects.size := by omega
    simp only [Store.change, Store.withMembers, Array.getElem?_modify, if_neg hne,
      Array.getElem?_push_size]

/-- **The description of the object never comes to an end**: each level of it is the description of a
later object with the same members. -/
theorem describeTo_selfTyped (level : Nat) {id : Nat} {expanding : List Nat}
    (hopen : name.key ∉ c.resolving) (hid : s.objects[id]? = some ⟨none, .members body⟩)
    (hnew : ∀ i ∈ expanding, i < id) :
    ((describeTo level expanding (.object id)).exec c s).1 = .error .exhausted := by
  induction level generalizing s id expanding with
  | zero => rfl
  | succ level ih =>
    have hlt : id < s.objects.size := (Array.getElem?_eq_some_iff.1 hid).1
    have hmem : id ∉ expanding := fun hmem => lt_irrefl _ (hnew id hmem)
    obtain ⟨s', hproperties, hnext⟩ := tries_properties h c.depth hopen hid
    have hview : Tries c s (view (.object id)) _ s' :=
      Tries.bind (x := ask _ (.properties (.object id))) hproperties (tries_pure _)
    have hinner : ((describeTo level (id :: expanding) (.object s.objects.size)).exec c s').1 =
        .error .exhausted := by
      refine ih hnext fun i hi => ?_
      rcases List.mem_cons.1 hi with rfl | hi
      · exact hlt
      · exact (hnew i hi).trans hlt
    rw [describeTo, Schema.synthesize, Schema.describeWith]
    rcases hview with herror | hok
    · exact exec_bind_fst_error herror
    · rw [exec_bind_ok hok]
      simp only [List.contains_iff_mem, hmem, if_false]
      rw [List.mapM_cons]
      exact exec_bind_fst_error (exec_bind_fst_error (exec_bind_fst_error hinner))

/-- Neither does the description of the type of the variable. -/
lemma schemaOf_selfTyped {β : Type} {e : Cursor} {f : Ty → Schema → Infer β}
    (hkind : e.kind = .identifier) (hdefined : (e.text == "undefined") = false)
    (hdeclaration : e.declaration? = some declaration) (hresolving : c.resolving = []) :
    ((do
      let t ← typeOf e
      let schema ← schemaOf t
      f t schema).exec c s).1 = .error .exhausted := by
  have hopen (e : Cursor) : e.key ∉ c.resolving := by simp [hresolving]
  rcases tries_typeOf_name (s := s) h c.depth hkind hdefined hdeclaration (hopen e) with
    herror | hok
  · exact exec_bind_fst_error herror
  · have htype : (typeOf e).exec c s = (.ok (.object s.objects.size), s.withMembers body) := hok
    rw [exec_bind_ok htype]
    refine exec_bind_fst_error (describeTo_selfTyped h c.depth (hopen name) ?_ (by simp))
    simp only [Store.withMembers, Array.getElem?_push_size]

/-- **The display of the object never comes to an end** either. -/
theorem display_selfTyped (d : Nat) {id : Nat} (hopen : name.key ∉ c.resolving)
    (hid : s.objects[id]? = some ⟨none, .members body⟩) (hnew : ∀ i ∈ c.displaying, i < id) :
    ((answer d _ (.display (.object id))).exec c s).1 = .error .exhausted := by
  induction d generalizing s id c with
  | zero => rfl
  | succ d ih =>
    have hlt : id < s.objects.size := (Array.getElem?_eq_some_iff.1 hid).1
    have hmem : id ∉ c.displaying := fun hmem => lt_irrefl _ (hnew id hmem)
    obtain ⟨s', hproperties, hnext⟩ := tries_properties (c := c.inDisplay id) h d hopen hid
    have hinner : ((answer d _ (.display (.object s.objects.size))).exec (c.inDisplay id) s').1 =
        .error .exhausted := by
      refine ih hopen hnext fun i hi => ?_
      rcases List.mem_cons.1 hi with rfl | hi
      · exact hlt
      · exact (hnew i hi).trans hlt
    have hinfo : (objectInfo id).exec c s = (.ok ⟨none, .members body⟩, s) := by
      rw [exec_objectInfo, hid, Option.getD_some]
    have hstep : (answer (d + 1) _ (.display (.object id))).exec c s =
        (propertiesOf (answer d) (.object id) >>= displayProperties (answer d)).exec
          (c.inDisplay id) s := by
      have hshown : (displayText (answer d) (.object id)).exec c s = _ := exec_bind_ok hinfo
      dsimp only at hshown
      rw [exec_bind_ok exec_read] at hshown
      simp only [List.contains_iff_mem, hmem, if_false] at hshown
      exact hshown
    have hlist : Tries (c.inDisplay id) s (propertiesOf (answer d) (.object id)) _ s' :=
      hproperties.bind (tries_pure _)
    rw [hstep]
    rcases hlist with herror | hok
    · exact exec_bind_fst_error herror
    · rw [exec_bind_ok hok]
      refine exec_bind_fst_error ?_
      simp only [Option.getD_some, List.mapM_cons, presentType, Bool.false_eq_true, if_false,
        LawfulMonad.pure_bind]
      exact exec_bind_fst_error (exec_bind_fst_error hinner)

end

end RouteScribe.Typing

namespace RouteScribe.Route

open Source (Node Cursor)
open Typing Infer

/-! ## Where the analysis stops -/

section

variable {c : Context} {s : Store} {e : Failure} {root call body value receiver : Cursor}

/-- A run for each item of a list that fails at the first item for which it does more than nothing. -/
lemma exec_mapM_error {α β : Type} {f : α → Infer β} {b : β} {l after : List α} {a : α}
    (hl : ∀ a ∈ l, (f a).exec c s = (.ok b, s)) (ha : ((f a).exec c s).1 = .error e) :
    (((l ++ a :: after).mapM f).exec c s).1 = .error e := by
  induction l with
  | nil =>
    rw [List.nil_append, List.mapM_cons]
    exact exec_bind_fst_error ha
  | cons a' l ih =>
    rw [List.cons_append, List.mapM_cons, exec_bind_ok (hl a' List.mem_cons_self)]
    exact exec_bind_fst_error (ih fun a ha => hl a (List.mem_cons_of_mem _ ha))

lemma recordsOf_error {before after : List Cursor} {method : Method} {path : String}
    (hwalk : root.walk = before ++ call :: after) (hbefore : ∀ c ∈ before, registration? c = none)
    (hcall : registration? call = some (method, path))
    (h : ((recordOf method path call).exec c s).1 = .error e) :
    ((recordsOf .any root).exec c s).1 = .error e := by
  unfold recordsOf
  rw [hwalk]
  refine exec_bind_fst_error (exec_mapM_error (b := []) (fun d hd => ?_) ?_)
  · rw [hbefore d hd]
    rfl
  · have hadmits : (Policy.any.admits call).exec c s = (.ok true, s) := rfl
    rw [hcall]
    refine Eq.trans (congrArg Prod.fst (exec_bind_ok hadmits)) ?_
    exact exec_bind_fst_error h

lemma recordOf_error {method : Method} {path : String}
    (hbody : (handler? call).bind (·.child? .body) = some body)
    (h : ((Handler.responses ((handler? call).bind Cursor.firstParameter?) body).exec c s).1 =
      .error e) : ((recordOf method path call).exec c s).1 = .error e := by
  unfold recordOf
  simp only [hbody]
  exact exec_bind_fst_error h

lemma responses_error {context : Option String} (hkind : body.kind = .callExpression)
    (hheaders : ∀ d ∈ body.walk, d.calledMember?.map Prod.fst ≠ some "header")
    (h : ((Handler.callResponses context none body).exec c s).1 = .error e) :
    ((Handler.responses context body).exec c s).1 = .error e := by
  have hheader (d : Cursor) (hd : d ∈ body.walk) :
      (Handler.headerMediaType? context d).exec c s = (.ok none, s) := by
    unfold Handler.headerMediaType?
    split
    · rfl
    · split
      · rename_i object key value rest hmember _
        exact absurd (by rw [hmember]; rfl) (hheaders d hd)
      · rfl
  have hexplicit : (Handler.explicitMediaType? context body).exec c s = (.ok none, s) := by
    have hnone : (body.walk.map fun _ => (none : Option String)).reverse.findSome? id = none := by
      rw [List.findSome?_eq_none_iff]
      intro o ho
      obtain ⟨-, -, rfl⟩ := List.mem_map.1 (List.mem_reverse.1 ho)
      rfl
    unfold Handler.explicitMediaType?
    rw [exec_bind_ok (exec_mapM hheader), exec_pure, hnone]
  obtain ⟨rest, hwalk⟩ : ∃ rest, body.walk = body :: rest := by
    rw [Cursor.walk, Source.Node.size_eq]
    exact ⟨_, rfl⟩
  unfold Handler.responses
  rw [exec_bind_ok hexplicit, hwalk]
  refine exec_bind_fst_error (exec_mapM_error (b := []) (l := []) (by simp) ?_)
  rw [hkind]
  exact h

lemma callResponses_error {context : Option String} (hkind : body.calledMember? = some ("json", receiver))
    (hreceiver : (receiver.unwrap.memberName? == some "req" || !Handler.isContext context receiver) =
      false) (harguments : body.callArguments = [value])
    (h : ∀ {β : Type} (f : Ty → Schema → Infer β), ((do
      let t ← typeOf value
      let schema ← schemaOf t
      f t schema).exec c s).1 = .error e) :
    ((Handler.callResponses context none body).exec c s).1 = .error e := by
  unfold Handler.callResponses
  simp only [hkind, hreceiver, harguments]
  exact h _

end

/-! ## The file -/

/-- A variable with a property of its own type, and a route that answers with the variable. -/
def selfTypedText : String :=
  "let x: \x7b next: typeof x \x7d\napp.get('/a', (c) => c.json(x))\n"

/-- The tree of the text. -/
def selfTypedProgram : Node := programOf selfTypedText

set_option maxRecDepth 10000 in
/-- What the tree looks like, as far as the analysis sees it. -/
lemma selfTypedProgram_spec :
    let node := selfTypedProgram.nth
    (Source.parse .plain selfTypedText).isSome = true ∧
      SelfTyped (node 3) (node 5) (node 7) (node 9) (node 11) (node 13) (node 15) "next" ∧
      18 < (Cursor.ofRoot selfTypedProgram).walk.length ∧
      (∀ c ∈ (Cursor.ofRoot selfTypedProgram).walk.take 18, registration? c = none) ∧
      registration? (node 18) = some (.get, "/a") ∧
      (handler? (node 18)).bind (·.child? .body) = some (node 34) ∧
      (node 34).kind = .callExpression ∧
      (∀ d ∈ (node 34).walk, d.calledMember?.map Prod.fst ≠ some "header") ∧
      (node 34).calledMember? = some ("json", node 36) ∧
      ((node 36).unwrap.memberName? == some "req" ||
        !Handler.isContext ((handler? (node 18)).bind Cursor.firstParameter?) (node 36)) = false ∧
      (node 34).callArguments = [node 41] ∧
      (node 41).kind = .identifier ∧
      ((node 41).text == "undefined") = false ∧
      (node 41).declaration? = some (node 3) := by
  decide +kernel

/-- **The analysis of the file uses up every depth**, so it never comes to an end. -/
theorem analyzeTo_selfTyped : ∃ program, Source.parse .plain selfTypedText = some program ∧
    ∀ d, analyzeTo d .any program = .error .exhausted := by
  have hspec := selfTypedProgram_spec
  have hprogram : Source.parse .plain selfTypedText = some selfTypedProgram :=
    parse_eq_some_programOf hspec.1
  obtain ⟨program, heq⟩ : ∃ program, selfTypedProgram = program := ⟨_, rfl⟩
  rw [heq] at hspec hprogram
  obtain ⟨-, hself, hlength, hbefore, hcall, hbody, hkind, hheaders, hmember, hreceiver, harguments,
    hname, hdefined, hdeclaration⟩ := hspec
  have hwalk : (Cursor.ofRoot program).walk =
      (Cursor.ofRoot program).walk.take 18 ++
        program.nth 18 :: (Cursor.ofRoot program).walk.drop 19 := by
    rw [Node.nth, List.getElem?_eq_getElem hlength, Option.getD_some,
      ← List.drop_eq_getElem_cons hlength, List.take_append_drop]
  refine ⟨program, hprogram, fun d => recordsOf_error hwalk hbefore hcall ?_⟩
  refine recordOf_error hbody (responses_error hkind hheaders ?_)
  exact callResponses_error hmember hreceiver harguments fun f =>
    schemaOf_selfTyped hself hname hdefined hdeclaration rfl

end RouteScribe.Route
