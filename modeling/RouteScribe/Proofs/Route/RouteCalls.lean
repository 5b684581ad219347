import RouteScribe.Proofs.Route.Termination
import RouteScribe.Proofs.Source.Walks

/-!
# Calls that register routes

The calls that register routes are found on a walk over the file, and each is worked on as soon as it is
found: only then is the next node looked at.  `yieldTo` hands the calls to such a consumer.  Under the
policy that counts every receiver it is the consumer, mapped over the calls of the walk
(`yieldTo_any`); a stricter policy leaves calls out, and neither adds any nor changes their order
(`sublist_of_yieldTo`), also when the work breaks off in the middle of the file.

Which nodes are such calls is said by `Registers`, without the functions that look at one.
-/

namespace RouteScribe.Route

open Source (Node Cursor Kind)
open Typing Infer

/-! ## The shape of a call -/

/-- A node is a string, or a template without expressions in it, and a path is what it holds. -/
def Spells (c : Cursor) (path : String) : Prop :=
  (c.kind = .string ∨
    c.kind = .templateString ∧ ∀ n ∈ c.node.children, n.kind ≠ .templateSubstitution) ∧
  path = Cursor.inner c.text

/-- A call registers a route: it is made on a member that is named after a method, and its first
argument spells the path. -/
structure Registers (c : Cursor) (method : Method) (path : String) : Prop where
  call : c.kind = .callExpression
  member : ∃ callee object property, c.child? .callee = some callee ∧
    callee.kind = .memberExpression ∧ callee.child? .object = some object ∧
    callee.child? .property = some property ∧ property.text = method.name
  argument : ∃ list argument, c.child? .arguments = some list ∧ list.kind = .arguments ∧
    list.named.head? = some argument ∧ Spells argument path

lemma stringValue?_eq_some_iff {c : Cursor} {path : String} :
    c.stringValue? = some path ↔ Spells c path := by
  unfold Cursor.stringValue? Spells
  split
  · rename_i hkind
    simp [hkind, eq_comm]
  · rename_i hkind
    split
    · rename_i hany
      simp only [List.any_eq_true, beq_iff_eq] at hany
      simp only [hkind, reduceCtorEq, true_and, false_or, false_iff, not_and]
      obtain ⟨n, hn, hsubstitution⟩ := hany
      exact fun hfree => absurd hsubstitution (hfree n hn)
    · rename_i hany
      simp only [Bool.not_eq_true, List.any_eq_false, beq_iff_eq] at hany
      simp only [hkind, reduceCtorEq, true_and, false_or, Option.some.injEq]
      exact ⟨fun h => ⟨hany, h.symm⟩, fun h => h.2.symm⟩
  · rename_i hstring htemplate
    simp only [reduceCtorEq, false_iff, not_and]
    rintro (hkind | ⟨hkind, -⟩)
    · exact absurd hkind hstring
    · exact absurd hkind htemplate

lemma Method.ofName?_eq_some_iff {name : String} {method : Method} :
    Method.ofName? name = some method ↔ name = method.name := by
  constructor
  · intro h
    have hname := List.find?_some h
    exact (eq_of_beq hname).symm
  · rintro rfl
    cases method <;> decide

lemma calledMember?_eq_some_iff {c object : Cursor} {name : String} :
    c.calledMember? = some (name, object) ↔ ∃ callee property, c.child? .callee = some callee ∧
      callee.kind = .memberExpression ∧ callee.child? .object = some object ∧
      callee.child? .property = some property ∧ property.text = name := by
  unfold Cursor.calledMember? Cursor.member? Cursor.memberName? Cursor.object?
  simp only [Option.bind_eq_bind, Option.bind_eq_some_iff, Option.pure_def, Option.some.injEq,
    Prod.mk.injEq, Option.ite_none_right_eq_some, beq_iff_eq, Option.map_eq_some_iff]
  constructor
  · rintro ⟨callee, hcallee, _, ⟨hkind, property, hproperty, rfl⟩, _, hobject, rfl, rfl⟩
    exact ⟨callee, property, hcallee, hkind, hobject, hproperty, rfl⟩
  · rintro ⟨callee, property, hcallee, hkind, hobject, hproperty, rfl⟩
    exact ⟨callee, hcallee, _, ⟨hkind, property, hproperty, rfl⟩, object, hobject, rfl, rfl⟩

lemma head?_callArguments_eq_some_iff {c argument : Cursor} :
    c.callArguments.head? = some argument ↔ ∃ list, c.child? .arguments = some list ∧
      list.kind = .arguments ∧ list.named.head? = some argument := by
  unfold Cursor.callArguments
  rcases c.child? .arguments with - | list
  · simp
  · by_cases hkind : list.kind = .arguments
    · simp [hkind]
    · simp [hkind]

/-- What a call registers is decided by looking at its parts. -/
theorem registration?_eq_some_iff {c : Cursor} {method : Method} {path : String} :
    registration? c = some (method, path) ↔ Registers c method path := by
  constructor
  · intro h
    unfold registration? at h
    simp only [Option.bind_eq_bind] at h
    split at h
    · simp at h
    · rename_i hkind
      obtain ⟨-, -, h⟩ := Option.bind_eq_some_iff.1 h
      obtain ⟨⟨name, object⟩, hmember, h⟩ := Option.bind_eq_some_iff.1 h
      obtain ⟨method', hmethod, h⟩ := Option.bind_eq_some_iff.1 h
      obtain ⟨argument, hargument, h⟩ := Option.bind_eq_some_iff.1 h
      obtain ⟨path', hpath, h⟩ := Option.bind_eq_some_iff.1 h
      cases h
      obtain ⟨callee, property, hcallee, hmemberKind, hobject, hproperty, htext⟩ :=
        calledMember?_eq_some_iff.1 hmember
      obtain ⟨list, hlist, hlistKind, hfirst⟩ := head?_callArguments_eq_some_iff.1 hargument
      exact {
        call := by simpa using hkind
        member := ⟨callee, object, property, hcallee, hmemberKind, hobject, hproperty,
          htext.trans (Method.ofName?_eq_some_iff.1 hmethod)⟩
        argument := ⟨list, argument, hlist, hlistKind, hfirst, stringValue?_eq_some_iff.1 hpath⟩ }
  · rintro ⟨hcall, ⟨callee, object, property, hcallee, hmemberKind, hobject, hproperty, htext⟩,
      ⟨list, argument, hlist, hlistKind, hfirst, hspells⟩⟩
    have hmember : c.calledMember? = some (method.name, object) :=
      calledMember?_eq_some_iff.2
        ⟨callee, property, hcallee, hmemberKind, hobject, hproperty, htext⟩
    have hargument : c.callArguments.head? = some argument :=
      head?_callArguments_eq_some_iff.2 ⟨list, hlist, hlistKind, hfirst⟩
    simp [registration?, hcall, hmember, Method.ofName?_eq_some_iff.2 rfl, hargument,
      stringValue?_eq_some_iff.2 hspells]

/-! ## Calls on a walk -/

/-- A call with the method and the path that it registers. -/
structure RouteCall where
  method : Method
  path : String
  call : Cursor
  deriving DecidableEq, Repr

/-- The route call that a node is. -/
def routeCall? (c : Cursor) : Option RouteCall :=
  (registration? c).map fun (method, path) => ⟨method, path, c⟩

lemma routeCall?_eq_some_iff {c : Cursor} {r : RouteCall} :
    routeCall? c = some r ↔ r.call = c ∧ Registers c r.method r.path := by
  obtain ⟨method, path, call⟩ := r
  simp only [routeCall?, Option.map_eq_some_iff, RouteCall.mk.injEq, Prod.exists]
  constructor
  · rintro ⟨_, _, h, rfl, rfl, rfl⟩
    exact ⟨rfl, registration?_eq_some_iff.1 h⟩
  · rintro ⟨rfl, h⟩
    exact ⟨method, path, registration?_eq_some_iff.2 h, rfl, rfl, rfl⟩

variable {α : Type}

/-- Hands the calls among some nodes that count under a policy to a consumer, one by one.  The next node
is looked at when the consumer is done with the last call. -/
def yieldTo (p : Policy) (use : RouteCall → Infer α) : List Cursor → Infer (List α)
  | [] => return []
  | c :: nodes =>
    match routeCall? c with
    | none => yieldTo p use nodes
    | some r => do
      if ← p.admits c then return (← use r) :: (← yieldTo p use nodes)
      else yieldTo p use nodes

/-- The record of a call. -/
def RouteCall.record (r : RouteCall) : Infer Record := recordOf r.method r.path r.call

/-- The records of a file are made from its route calls, each when it is found. -/
theorem recordsOf_eq_yieldTo (p : Policy) (root : Cursor) :
    recordsOf p root = yieldTo p RouteCall.record root.walk := by
  unfold recordsOf
  generalize root.walk = nodes
  induction nodes with
  | nil => simp [yieldTo]
  | cons c nodes ih =>
    rw [List.mapM_cons, yieldTo, ← ih, routeCall?]
    rcases registration? c with - | ⟨method, path⟩
    · simp
    · simp only [Option.map_some, bind_assoc, pure_bind]
      congr 1
      funext admitted
      cases admitted <;> simp [RouteCall.record]

/-- When every receiver counts, all route calls are handed over. -/
theorem yieldTo_any (use : RouteCall → Infer α) (nodes : List Cursor) :
    yieldTo .any use nodes = (nodes.filterMap routeCall?).mapM use := by
  induction nodes with
  | nil => rw [yieldTo, List.filterMap_nil, List.mapM_nil]
  | cons c nodes ih =>
    rw [yieldTo, List.filterMap_cons]
    rcases routeCall? c with - | r
    · exact ih
    · have hadmits : Policy.any.admits c = pure true := rfl
      simp only [hadmits, pure_bind, if_true, ih, List.mapM_cons]

/-- A consumer that keeps the calls beside its results. -/
def withCall (use : RouteCall → Infer α) (r : RouteCall) : Infer (RouteCall × α) := do
  return (r, ← use r)

/-- **A policy only leaves calls out.** -/
theorem sublist_of_yieldTo {p : Policy} {use : RouteCall → Infer α} {nodes : List Cursor}
    {c : Context} {s s' : Store} {results : List (RouteCall × α)}
    (h : (yieldTo p (withCall use) nodes).exec c s = (.ok results, s')) :
    (results.map Prod.fst).Sublist (nodes.filterMap routeCall?) := by
  induction nodes generalizing s results with
  | nil =>
    cases h
    exact .slnil
  | cons node nodes ih =>
    rw [yieldTo] at h
    rw [List.filterMap_cons]
    rcases hcall : routeCall? node with - | r
    · rw [hcall] at h
      exact ih h
    · rw [hcall] at h
      obtain ⟨admitted, s₁, -, h⟩ := exec_bind_eq_ok.1 h
      cases admitted with
      | false => exact (ih h).cons r
      | true =>
        obtain ⟨⟨r', a⟩, s₂, huse, h⟩ := exec_bind_eq_ok.1 h
        obtain ⟨rest, s₃, hrest, h⟩ := exec_bind_eq_ok.1 h
        cases h
        obtain ⟨b, s₄, -, hpair⟩ := exec_bind_eq_ok.1 huse
        cases hpair
        exact (ih hrest).cons_cons r

/-- **The walk and the route calls of a file.**  The walk with a stack is the preorder, for every bound
that is large enough, and visits the node at each address once, in the order of the addresses.  A node
is a route call exactly if it registers a path.  The records of a file are made from its route calls one
by one.  If every receiver counts, the calls are those of the nodes on the walk, in order and each once.
Under any policy, the calls that were handed over when some part of the walk is done are a subsequence
of these. -/
theorem routeCalls_of_walk (root : Cursor) :
    (∀ n, root.size ≤ n → Cursor.walkStack n [root] = root.preorder) ∧ root.walk = root.preorder ∧
    root.walk.map some = root.node.addresses.map root.at? ∧
    root.node.addresses.Pairwise (· < ·) ∧
    (∀ a, a ∈ root.node.addresses ↔ (root.at? a).isSome = true) ∧
    (∀ c r, routeCall? c = some r ↔ r.call = c ∧ Registers c r.method r.path) ∧
    (∀ p, recordsOf p root = yieldTo p RouteCall.record root.walk) ∧
    (∀ (α : Type) (use : RouteCall → Infer α),
      yieldTo .any use root.walk = (root.walk.filterMap routeCall?).mapM use) ∧
    root.walk.filterMap routeCall? =
      root.node.addresses.filterMap (fun a => (root.at? a).bind routeCall?) ∧
    ∀ (p : Policy) (α : Type) (use : RouteCall → Infer α) (nodes : List Cursor),
      nodes <+: root.walk → ∀ c s results s',
      (yieldTo p (withCall use) nodes).exec c s = (.ok results, s') →
      (results.map Prod.fst).Sublist (root.walk.filterMap routeCall?) := by
  obtain ⟨haddresses, hsorted, hexact⟩ := root.walk_addresses
  refine ⟨fun n h => Cursor.walkStack_eq_preorder h, root.walk_eq_preorder, haddresses, hsorted, hexact,
    fun c r => routeCall?_eq_some_iff, fun p => recordsOf_eq_yieldTo p root,
    fun α use => yieldTo_any use root.walk, ?_, ?_⟩
  · calc root.walk.filterMap routeCall?
        = (root.walk.map some).filterMap (·.bind routeCall?) := by
          rw [List.filterMap_map]
          rfl
      _ = root.node.addresses.filterMap (fun a => (root.at? a).bind routeCall?) := by
          rw [haddresses, List.filterMap_map]
          rfl
  · intro p α use nodes hnodes c s results s' hrun
    exact (sublist_of_yieldTo hrun).trans (hnodes.sublist.filterMap routeCall?)

/-- A router and another object, both with a member that is named after a method. -/
def twoReceiversText : String :=
  "const app = new Hono()\napp.get('/a')\nclient.get('/b')\napp.post(`/c`).put('/d')\n"

/-- The calls that are found under a policy. -/
def foundCalls (p : Policy) (program : Node) : Infer (List (RouteCall × Unit)) :=
  yieldTo p (withCall fun _ => return ()) (Cursor.ofRoot program).walk

set_option maxRecDepth 10000 in
/-- Under a policy that names router types, the call on the second receiver is left out. -/
theorem routeCalls_of_twoReceivers : ∃ program c results s,
    Source.parse .plain twoReceiversText = some program ∧
    (foundCalls ⟨some knownRouterTypes⟩ program).exec c .empty = (.ok results, s) ∧
    results.map (·.1.path) = ["/a", "/d", "/c"] ∧
    (results.map Prod.fst).Sublist ((Cursor.ofRoot program).walk.filterMap routeCall?) ∧
    ((Cursor.ofRoot program).walk.filterMap routeCall?).map RouteCall.path =
      ["/a", "/b", "/d", "/c"] := by
  obtain ⟨program, hparse, hrouter, hall⟩ : ∃ program,
      Source.parse .plain twoReceiversText = some program ∧
      ((runs program .empty (foundCalls ⟨some knownRouterTypes⟩ program) 8).1.toOption.any
        fun results => results.map (·.1.path) = ["/a", "/d", "/c"]) = true ∧
      ((Cursor.ofRoot program).walk.filterMap routeCall?).map RouteCall.path =
        ["/a", "/b", "/d", "/c"] :=
    exists_program (by decide +kernel)
  obtain ⟨results, s, hrun, hpaths⟩ := Outcome.exists_ok_of_any hrouter
  obtain ⟨-, -, -, -, -, -, -, -, -, hsublist⟩ := routeCalls_of_walk (.ofRoot program)
  refine ⟨program, _, results, s, hparse, hrun, of_decide_eq_true hpaths, ?_, hall⟩
  exact hsublist _ Unit _ _ (List.prefix_refl _) _ _ results s hrun

end RouteScribe.Route
