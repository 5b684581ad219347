import Mathlib
import RouteScribe.Proofs.Route.UnionSchemas
import RouteScribe.Proofs.Typing.Sound

/-!
# How the analysis of a file can fail

The analysis of a legible tree gives records, with three exceptions (`analyzeTo_of_legible`): it may
never come to an end, a handler may give a numeric literal that is larger than every number as a status
code, and an integer may have too many digits to be displayed.  All other partial steps find what they
need: each number of the tree can be read, and each node that is asked for is there.

The first half of the file goes through the analysis function by function, as triples: every
failure is one of these three, the second only where a status is read (`givenStatuses`).  That the third
comes from a number of the tree is known from the norm that all runs keep to.  The second half is the
converse for infinite statuses: a run that meets one is stuck, and so is every run
around it (`Stuck`).
-/

set_option mvcgen.warning false

namespace RouteScribe.Typing

open Std.Do Infer
open Source (Node Cursor)

/-! ## Questions about a file -/

section

variable {α β : Type} {w : Watch}

@[spec] lemma sound_foldlM {f : β → α → Infer β} {l : List α} (b : β)
    (h : ∀ b, ∀ a ∈ l, w.Sound (f b a)) : w.Sound (l.foldlM f b) := by
  induction l generalizing b with
  | nil =>
    rw [List.foldlM_nil]
    mvcgen
  | cons a l ih =>
    have hfirst := h b a List.mem_cons_self
    have hrest (b' : β) := ih b' fun b a ha => h b a (List.mem_cons_of_mem _ ha)
    rw [List.foldlM_cons]
    exact hfirst.bind hrest

@[spec] lemma sound_anyM {f : α → Infer Bool} {l : List α} (h : ∀ a ∈ l, w.Sound (f a)) :
    w.Sound (l.anyM f) := by
  induction l with
  | nil =>
    rw [List.anyM]
    mvcgen
  | cons a l ih =>
    have hfirst := h a List.mem_cons_self
    have hrest := ih fun b hb => h b (List.mem_cons_of_mem _ hb)
    rw [List.anyM]
    mvcgen [hfirst, hrest]

end

/-- The type that a numeric literal has for the value that was read. -/
def literalOf (v : Option Numeral) : Ty := (v.map fun n => Ty.literal (.number n)).getD .number

/-- A number has the type of its value, unless its own type is being worked out. -/
lemma exec_typeOf_number {c : Cursor} {x : Context} {s : Store} {v : Option Numeral}
    (hkind : c.kind = .number) (hread : Numeral.read c.text = .ok v) :
    (typeOf c).exec x s = (.error .exhausted, s) ∨
      (typeOf c).exec x s = (.ok (if c.key ∈ x.resolving then .any else literalOf v), s) := by
  have hask : (typeOf c).exec x s = (answer x.depth _ (.typeOf c)).exec x s :=
    exec_bind_ok exec_read
  rw [hask]
  cases x.depth with
  | zero => exact .inl rfl
  | succ d =>
    right
    have hresolved : (answer (d + 1) _ (.typeOf c)).exec x s = _ := exec_bind_ok exec_read
    rw [hresolved]
    by_cases hopen : c.key ∈ x.resolving
    · rw [if_pos (List.contains_iff_mem.2 hopen), if_pos hopen, exec_pure]
    · rw [if_neg fun hmem => hopen (List.contains_iff_mem.1 hmem), if_neg hopen, exec_withReader,
        expressionType, hkind, hread]
      cases v <;> rfl

lemma numericValue?_literalOf {v : Option Numeral} : (literalOf v).numericValue? = v := by
  cases v <;> rfl

section

variable {w : Watch} {c : Cursor} (hlegible : w.root.Legible) (hlenient : w.Lenient)

include hlegible hlenient

/-- The type of an expression.  If it is a number and has a single value, that is its own. -/
@[spec] lemma sound_typeOf (hc : Source.Within w.root c) :
    ⦃fun c s => ⌜c.Within w.root ∧ w.Holds s⌝⦄ typeOf c
    ⦃post⟨fun t x s => ⌜(x.Within w.root ∧ w.Holds s) ∧ (c.kind = .number → ∀ n,
        t.numericValue? = some n → Numeral.read c.text = .ok (some n))⌝,
      fun e _ => ⌜w.fails e⌝⟩⦄ := by
  have hsound : w.Sound (typeOf c) := sound_ask hlegible hlenient _ hc
  refine triple_iff.2 fun x s hs => ?_
  obtain ⟨hok, herror⟩ := triple_iff.1 hsound x s hs
  refine ⟨fun t s' ht => ⟨hok t s' ht, fun hkind n hn => ?_⟩, herror⟩
  obtain ⟨v, hread⟩ := hc.exists_read hlegible hkind
  rcases exec_typeOf_number (x := x) (s := s) hkind hread with hfailed | hgiven
  · rw [hfailed] at ht
    cases ht
  · rw [hgiven] at ht
    cases ht
    split at hn
    · cases hn
    · rw [numericValue?_literalOf] at hn
      rw [hread, hn]

@[spec] lemma sound_denoted (hc : Source.Within w.root c) : w.Sound (denoted c) :=
  sound_ask hlegible hlenient _ hc

@[spec] lemma sound_display (t : Ty) : w.Sound (display t) :=
  sound_ask hlegible hlenient _ trivial

@[spec] lemma sound_view (t : Ty) : w.Sound (view t) := by
  have hask {α : Type} (q : Query α) (hq : q.Within w.root) : w.Sound (ask α q) :=
    sound_ask hlegible hlenient q hq
  mvcgen [view, hask, hlegible, hlenient] with grind -ring -linarith

@[spec] lemma sound_schemaOf (t : Ty) : w.Sound (schemaOf t) := by
  have hdescribe (level : Nat) (expanding : List Nat) (t : Ty) :
      w.Sound (Schema.synthesize view Ty.isNullish (throw .exhausted) level expanding t) := by
    induction level generalizing expanding t with
    | zero => exact sound_throw hlenient.exhausted
    | succ level ih =>
      mvcgen [Schema.synthesize, Schema.describeWith, ih, hlegible, hlenient]
  mvcgen [schemaOf, hdescribe]

end

end RouteScribe.Typing

namespace RouteScribe.Handler

open Source (Node Cursor Within)
open Typing Infer

/-! ## Where handlers give statuses -/

/-- The arguments of a call on the context that are read as status codes. -/
def calledStatuses (context : Option String) (c : Cursor) : List Cursor :=
  match c.calledMember? with
  | none => []
  | some (name, receiver) =>
    if receiver.unwrap.memberName? == some "req" || !isContext context receiver then []
    else c.callArguments[1]?.toList ++
      if name == "notFound" then c.callArguments.head?.toList else []

/-- The status of a new response that a statement returns. -/
def returnedStatuses (c : Cursor) : List Cursor :=
  match c.named.head?.map Cursor.unwrap with
  | none => []
  | some base =>
    if base.kind != .newExpression || (base.child? .constructed).map Cursor.text != some "Response"
    then [] else (option? base.callArguments[1]? "status").toList

/-- The expressions in the body of a handler that are read as status codes. -/
def givenStatuses (context : Option String) (body : Cursor) : List Cursor :=
  body.walk.flatMap fun c =>
    match c.kind with
    | .callExpression => calledStatuses context c
    | .returnStatement => returnedStatuses c
    | _ => []

section

variable {context : Option String} {c d receiver base : Cursor} {name : String}

lemma mem_calledStatuses (hmember : c.calledMember? = some (name, receiver))
    (hown : ¬(receiver.unwrap.memberName? == some "req" || !isContext context receiver) = true)
    (hd : c.callArguments[1]? = some d) : d ∈ calledStatuses context c := by
  simp only [calledStatuses, hmember, if_neg hown, List.mem_append]
  exact .inl (Option.mem_toList.2 hd)

lemma mem_calledStatuses_notFound (hmember : c.calledMember? = some (name, receiver))
    (hown : ¬(receiver.unwrap.memberName? == some "req" || !isContext context receiver) = true)
    (hname : name = "notFound") (hd : c.callArguments.head? = some d) :
    d ∈ calledStatuses context c := by
  simp only [calledStatuses, hmember, if_neg hown, List.mem_append, hname, beq_self_eq_true,
    if_true]
  exact .inr (Option.mem_toList.2 hd)

lemma mem_returnedStatuses (hbase : c.named.head?.map Cursor.unwrap = some base)
    (hnew : ¬(base.kind != .newExpression ||
      (base.child? .constructed).map Cursor.text != some "Response") = true)
    (hd : option? base.callArguments[1]? "status" = some d) : d ∈ returnedStatuses c := by
  simp only [returnedStatuses, hbase, if_neg hnew]
  exact Option.mem_toList.2 hd

lemma mem_givenStatuses_of_called (hc : c ∈ base.walk) (hkind : c.kind = .callExpression)
    (hd : d ∈ calledStatuses context c) : d ∈ givenStatuses context base :=
  List.mem_flatMap.2 ⟨c, hc, by rwa [hkind]⟩

lemma mem_givenStatuses_of_returned (hc : c ∈ base.walk) (hkind : c.kind = .returnStatement)
    (hd : d ∈ returnedStatuses c) : d ∈ givenStatuses context base :=
  List.mem_flatMap.2 ⟨c, hc, by rwa [hkind]⟩

end

/-- A numeric literal that is larger than every number, in any wrappers. -/
def isInfinite (c : Cursor) : Bool :=
  c.unwrap.kind == .number &&
    match Numeral.read c.unwrap.text with
    | .ok (some n) => n.truncate?.isNone
    | _ => false

/-! ## Media types -/

attribute [local grind →] Within.child Within.named Within.arguments Within.walk Within.follow
  Within.calledMember within_getElem? within_head? List.mem_of_head?
  mem_calledStatuses mem_calledStatuses_notFound mem_returnedStatuses mem_givenStatuses_of_called
attribute [local grind ←] Within.unwrap

section

variable {w : Watch} {c : Cursor} (hlegible : w.root.Legible) (hlenient : w.Lenient)

include hlegible hlenient

@[spec] lemma sound_isBinaryAlone (t : Ty) : w.Sound (isBinaryAlone t) := by
  mvcgen [isBinaryAlone, hlegible, hlenient]

@[spec] lemma sound_isBinary (t : Ty) : w.Sound (isBinary t) :=
  sound_anyM fun t _ => sound_isBinaryAlone hlegible hlenient t

@[spec] lemma sound_statuses (hc : Within w.root c)
    (hfails : isInfinite c = true → w.fails .infiniteStatus) :
    w.Sound (statuses c) := by
  have hmember : ∃ v, enumMemberValue? c.unwrap = .ok v := exists_enumMemberValue? hlegible hc.unwrap
  mvcgen [statuses, hlegible, hlenient] with grind -ring -linarith [isInfinite]

@[spec] lemma sound_stringOf? (hc : Within w.root c) : w.Sound (stringOf? c) := by
  mvcgen [stringOf?, hlegible, hlenient] with grind -ring -linarith

@[spec] lemma sound_blobMediaType? {value : Option Cursor}
    (hvalue : ∀ d, value = some d → Within w.root d) :
    w.Sound (blobMediaType? value) := by
  have htype {base d : Cursor} {i : Nat} (hbase : value.map Cursor.unwrap = some base)
      (hd : option? base.callArguments[i]? "type" = some d) : Within w.root d := by
    obtain ⟨c, hc, rfl⟩ := Option.map_eq_some_iff.1 hbase
    exact within_of_option? (fun _ harg => within_getElem? (hvalue c hc).unwrap harg) hd
  mvcgen [blobMediaType?, hlegible, hlenient] with grind -ring -linarith

@[spec] lemma sound_headerMediaType? (context : Option String) (hc : Within w.root c) :
    w.Sound (headerMediaType? context c) := by
  have hsecond {key value : Cursor} {rest : List Cursor}
      (h : c.callArguments = key :: value :: rest) : Within w.root value := hc.arguments (by simp [h])
  mvcgen [headerMediaType?, hlegible, hlenient] with grind -ring -linarith

@[spec] lemma sound_explicitMediaType? (context : Option String) (hc : Within w.root c) :
    w.Sound (explicitMediaType? context c) := by
  mvcgen [explicitMediaType?, hlegible, hlenient] with grind -ring -linarith

@[spec] lemma sound_initMediaType? {value : Option Cursor}
    (hvalue : ∀ d, value = some d → Within w.root d) :
    w.Sound (initMediaType? value) := by
  have hheader {headers d : Cursor} {test : Cursor → Bool}
      (hheaders : option? value "headers" = some headers)
      (hd : (headers.named.find? test).bind (·.child? .value) = some d) : Within w.root d := by
    obtain ⟨pair, hpair, hd⟩ := Option.bind_eq_some_iff.1 hd
    exact ((within_of_option? hvalue hheaders).named (List.mem_of_find?_eq_some hpair)).child hd
  mvcgen [initMediaType?, hlegible, hlenient] with grind -ring -linarith

/-! ## Responses and requests -/

@[spec] lemma sound_contextResponse (explicit : Option String) (name : String)
    {value : Option Cursor} (codes : List Int) (hvalue : ∀ d, value = some d → Within w.root d)
    (hfails : name = "notFound" → ∀ d, value = some d → isInfinite d = true →
      w.fails .infiniteStatus) :
    w.Sound (contextResponse explicit name value codes) := by
  mvcgen [contextResponse, hlegible, hlenient] with grind -ring -linarith

@[spec] lemma sound_callResponses (context explicit : Option String) (hc : Within w.root c)
    (hfails : ∀ d ∈ calledStatuses context c, isInfinite d = true → w.fails .infiniteStatus) :
    w.Sound (callResponses context explicit c) := by
  mvcgen [callResponses, hlegible, hlenient] with grind -ring -linarith

@[spec] lemma sound_constructedContent? (hc : Within w.root c) :
    w.Sound (constructedContent? c) := by
  mvcgen [constructedContent?, hlegible, hlenient] with grind -ring -linarith

@[spec] lemma sound_returnedResponses (explicit : Option String) (hc : Within w.root c)
    (hfails : ∀ d ∈ returnedStatuses c, isInfinite d = true → w.fails .infiniteStatus) :
    w.Sound (returnedResponses explicit c) := by
  have hbase {base : Cursor} (h : c.named.head?.map Cursor.unwrap = some base) :
      Within w.root base := by
    obtain ⟨d, hd, rfl⟩ := Option.map_eq_some_iff.1 h
    exact (hc.named (List.mem_of_head? hd)).unwrap
  have hstatus {base d : Cursor} (h : c.named.head?.map Cursor.unwrap = some base)
      (hd : option? base.callArguments[1]? "status" = some d) : Within w.root d :=
    within_of_option? (fun _ => within_getElem? (hbase h)) hd
  mvcgen [returnedResponses, hlegible, hlenient] with grind -ring -linarith

@[spec] lemma sound_responses (context : Option String) (hc : Within w.root c)
    (hfails : ∀ d ∈ givenStatuses context c, isInfinite d = true → w.fails .infiniteStatus) :
    w.Sound (responses context c) := by
  mvcgen [responses, hlegible, hlenient] with grind -ring -linarith [mem_givenStatuses_of_returned]

@[spec] lemma sound_readDeclarator (context : Option String) (r : Request) (hc : Within w.root c) :
    w.Sound (readDeclarator context r c) := by
  have hvalue {value call : Cursor} (h : ((c.child? .value).bind fun value =>
      (awaitedCall? value).map fun call => (value, call)) = some (value, call)) :
      Within w.root value := by
    obtain ⟨value', hvalue, h⟩ := Option.bind_eq_some_iff.1 h
    obtain ⟨call', -, hpair⟩ := Option.map_eq_some_iff.1 h
    exact (Prod.mk.inj hpair).1 ▸ hc.child hvalue
  mvcgen [readDeclarator, hlegible, hlenient] with grind -ring -linarith

@[spec] lemma sound_request (context : Option String) (hc : Within w.root c) :
    w.Sound (request context c) := by
  refine sound_foldlM _ fun r d hd => ?_
  have hwithin : Within w.root d := hc.walk hd
  mvcgen [hlegible, hlenient] with grind -ring -linarith

end

end RouteScribe.Handler

namespace RouteScribe.Route

open Source (Node Cursor Within)
open Typing Infer

/-! ## Registrations -/

/-- The expressions that the handler of a registration gives as status codes. -/
def statusesOf (c : Cursor) : List Cursor :=
  match (handler? c).bind (·.child? .body) with
  | some body => Handler.givenStatuses ((handler? c).bind Cursor.firstParameter?) body
  | none => []

/-- Some handler gives an infinite number as a status code. -/
def InfiniteStatus (program : Node) : Prop :=
  ∃ c ∈ (Cursor.ofRoot program).walk, (registration? c).isSome = true ∧
    ∃ d ∈ statusesOf c, Handler.isInfinite d = true

instance (program : Node) : Decidable (InfiniteStatus program) :=
  inferInstanceAs (Decidable (∃ c ∈ (Cursor.ofRoot program).walk, (registration? c).isSome = true ∧
    ∃ d ∈ statusesOf c, Handler.isInfinite d = true))

attribute [local grind →] Within.child Within.named Within.arguments Within.walk
  Within.calledMember
attribute [local grind ←] Within.unwrap

section

variable {w : Watch} {c : Cursor} (hlegible : w.root.Legible) (hlenient : w.Lenient)

include hlegible hlenient

@[spec] lemma sound_isRouter (types : List String) (hc : Within w.root c) :
    w.Sound (isRouter types c) := by
  have hstart {start : Cursor} (h : chainStart? (c.node.size + 1) c.unwrap = some start) :
      Within w.root start := within_chainStart? hc.unwrap h
  mvcgen [isRouter, hlegible, hlenient] with grind -ring -linarith

@[spec] lemma sound_admits (p : Policy) (hc : Within w.root c) : w.Sound (p.admits c) := by
  mvcgen [Policy.admits, hlegible, hlenient] with grind -ring -linarith

@[spec] lemma sound_recordOf (method : Method) (path : String) (hc : Within w.root c)
    (hfails : ∀ d ∈ statusesOf c, Handler.isInfinite d = true → w.fails .infiniteStatus) :
    w.Sound (recordOf method path c) := by
  have hbody {body : Cursor} (h : (handler? c).bind (·.child? .body) = some body) :
      Within w.root body := by
    obtain ⟨handler, hhandler, hbody⟩ := Option.bind_eq_some_iff.1 h
    exact (within_handler? hc hhandler).child hbody
  mvcgen [recordOf, hlegible, hlenient] with grind -ring -linarith [statusesOf]

@[spec] lemma sound_recordsOf (p : Policy) (hc : Within w.root c)
    (hfails : ∀ d ∈ c.walk, (registration? d).isSome = true → ∀ e ∈ statusesOf d,
      Handler.isInfinite e = true → w.fails .infiniteStatus) : w.Sound (recordsOf p c) := by
  mvcgen [recordsOf, hlegible, hlenient] with grind -ring -linarith

end

end RouteScribe.Route

/-! ## Infinite statuses -/

namespace RouteScribe.Typing

open Infer
open Source (Node Cursor)

/-- No run from the context gives an answer. -/
def Stuck {α : Type} (x : Context) (f : Infer α) : Prop := ∀ s a s', f.exec x s ≠ (.ok a, s')

section

variable {α β : Type} {x : Context} {f : Infer α} {g : α → Infer β}

lemma Stuck.bind (h : Stuck x f) : Stuck x (f >>= g) := by
  intro s b s' hb
  obtain ⟨a, s₁, ha, -⟩ := exec_bind_eq_ok.1 hb
  exact h s a s₁ ha

lemma Stuck.after (h : ∀ a, Stuck x (g a)) : Stuck x (f >>= g) := by
  intro s b s' hb
  obtain ⟨a, s₁, -, hg⟩ := exec_bind_eq_ok.1 hb
  exact h a s₁ b s' hg

/-- A list with an item that has no answer. -/
lemma Stuck.mapM {g : α → Infer β} {l : List α} {a : α} (ha : a ∈ l) (h : Stuck x (g a)) :
    Stuck x (l.mapM g) := by
  induction l with
  | nil => cases ha
  | cons b l ih =>
    rw [List.mapM_cons]
    rcases List.mem_cons.1 ha with rfl | ha
    · exact h.bind
    · exact .after fun _ => (ih ha).bind

end

end RouteScribe.Typing

namespace RouteScribe.Handler

open Source (Node Cursor)
open Typing Infer

section

variable {x : Context} {c d : Cursor} {context explicit : Option String}

lemma stuck_statuses (hopen : x.resolving = []) (h : isInfinite c = true) :
    Stuck x (statuses c) := by
  simp only [isInfinite, Bool.and_eq_true, beq_iff_eq] at h
  obtain ⟨hkind, h⟩ := h
  split at h
  case h_2 => cases h
  case h_1 n hread =>
    have htruncate : n.truncate? = none := Option.isNone_iff_eq_none.1 h
    have hnumber : (c.unwrap.kind == .number) = true := by rw [hkind]; rfl
    intro s a s' hrun
    rw [statuses] at hrun
    dsimp only at hrun
    rw [if_pos hnumber] at hrun
    obtain ⟨t, s₁, htype, hrun⟩ := exec_bind_eq_ok.1 hrun
    rcases exec_typeOf_number (x := x) (s := s) hkind hread with hfailed | hgiven
    · rw [hfailed] at htype
      cases htype
    · rw [hgiven, hopen] at htype
      cases htype
      rw [if_neg (List.not_mem_nil), numericValue?_literalOf] at hrun
      simp only [htruncate] at hrun
      cases hrun

lemma stuck_callResponses (hopen : x.resolving = []) (hd : d ∈ calledStatuses context c)
    (h : isInfinite d = true) : Stuck x (callResponses context explicit c) := by
  have hstuck : Stuck x (statuses d) := stuck_statuses hopen h
  rcases hmember : c.calledMember? with - | ⟨name, receiver⟩
  · rw [calledStatuses, hmember] at hd
    cases hd
  by_cases hown : (receiver.unwrap.memberName? == some "req" || !isContext context receiver) = true
  · rw [calledStatuses, hmember] at hd
    dsimp only at hd
    rw [if_pos hown] at hd
    cases hd
  rw [calledStatuses, hmember] at hd
  rw [callResponses, hmember]
  dsimp only at hd ⊢
  rw [if_neg hown] at hd ⊢
  rcases List.mem_append.1 hd with hd | hd
  · rw [Option.mem_toList] at hd
    simp only [hd]
    exact hstuck.bind
  · by_cases hname : (name == "notFound") = true
    · rw [if_pos hname, Option.mem_toList] at hd
      rw [beq_iff_eq] at hname
      have hresponse (codes : List Int) :
          Stuck x (contextResponse explicit name c.callArguments.head? codes) := by
        rw [hname, hd]
        exact hstuck.bind
      split
      · exact .after hresponse
      · exact .after hresponse
    · rw [if_neg hname] at hd
      cases hd

lemma stuck_returnedResponses (hopen : x.resolving = []) (hd : d ∈ returnedStatuses c)
    (h : isInfinite d = true) : Stuck x (returnedResponses explicit c) := by
  have hstuck : Stuck x (statuses d) := stuck_statuses hopen h
  rcases hbase : c.named.head?.map Cursor.unwrap with - | base
  · rw [returnedStatuses, hbase] at hd
    cases hd
  by_cases hnew : (base.kind != .newExpression ||
      (base.child? .constructed).map Cursor.text != some "Response") = true
  · rw [returnedStatuses, hbase] at hd
    dsimp only at hd
    rw [if_pos hnew] at hd
    cases hd
  rw [returnedStatuses, hbase] at hd
  rw [returnedResponses, hbase]
  dsimp only at hd ⊢
  rw [if_neg hnew] at hd ⊢
  rw [Option.mem_toList] at hd
  simp only [hd]
  exact .after fun _ => hstuck.bind

lemma stuck_responses (hopen : x.resolving = []) (hd : d ∈ givenStatuses context c)
    (h : isInfinite d = true) : Stuck x (responses context c) := by
  obtain ⟨e, he, hd⟩ := List.mem_flatMap.1 hd
  refine .after fun explicit => (Stuck.mapM he ?_).bind
  split at hd
  case h_1 hkind =>
    simpa only [hkind] using stuck_callResponses hopen hd h
  case h_2 hkind =>
    simpa only [hkind] using stuck_returnedResponses hopen hd h
  case h_3 => cases hd

end

end RouteScribe.Handler

namespace RouteScribe.Route

open Source (Node Cursor Within)
open Typing Infer

lemma stuck_recordOf {x : Context} {c d : Cursor} {method : Method} {path : String}
    (hopen : x.resolving = []) (hd : d ∈ statusesOf c) (h : Handler.isInfinite d = true) :
    Stuck x (recordOf method path c) := by
  unfold statusesOf at hd
  split at hd
  case h_2 => cases hd
  case h_1 body hbody =>
    simp only [recordOf, hbody]
    exact (Handler.stuck_responses hopen hd h).bind

lemma stuck_recordsOf {x : Context} {program : Node} (hopen : x.resolving = [])
    (h : InfiniteStatus program) : Stuck x (recordsOf .any (.ofRoot program)) := by
  obtain ⟨c, hc, hregistered, d, hd, hinfinite⟩ := h
  obtain ⟨⟨method, path⟩, hregistration⟩ := Option.isSome_iff_exists.1 hregistered
  refine (Stuck.mapM hc ?_).bind
  simp only [hregistration]
  have hadmits : Policy.any.admits c = pure true := rfl
  rw [hadmits, pure_bind, if_pos rfl]
  exact (stuck_recordOf hopen hd hinfinite).bind

/-! ## Whole files -/

/-- What runs on a file start from stays in the file. -/
lemma within_ofRoot (program : Node) (d : Nat) :
    (Context.ofFile d (.ofRoot program)).Within program where
  aliases _ ha := within_of_mem_declarationsOf ha
  enums _ ha := within_of_mem_declarationsOf ha

/-- A run on a file that is sound fails as expected only. -/
lemma fails_of_runs {α : Type} {program : Node} {s s' : Store} {fails : Failure → Prop} {x : Infer α}
    (hsound : (⟨program, s, fails⟩ : Watch).Sound x) (hs : s.Within program) {d : Nat} {e : Failure}
    (he : runs program s x d = (.error e, s')) : fails e :=
  (triple_iff.1 hsound _ s ⟨within_ofRoot program d, hs, le_rfl, .refl s⟩).2 e s' he

lemma failure_of_legible {program : Node} (hlegible : program.Legible) {p : Policy} {d : Nat}
    {e : Failure} (he : analyzeTo d p program = .error e) :
    e = .exhausted ∨ e = .infiniteStatus ∧ InfiniteStatus program ∨
      e = .longNumber ∧ LongNumber program := by
  let w : Watch := {
    root := program
    before := .empty
    fails := fun e =>
      e = .exhausted ∨ e = .infiniteStatus ∧ InfiniteStatus program ∨ e = .longNumber }
  have hlenient : w.Lenient := ⟨.inl rfl, .inr (.inr rfl)⟩
  have hsound : w.Sound (recordsOf p (.ofRoot program)) :=
    sound_recordsOf hlegible hlenient p .root fun c hc hregistered d hd hinfinite =>
      .inr (.inl ⟨rfl, c, hc, hregistered, d, hd, hinfinite⟩)
  have hrun : runs program .empty (recordsOf p (.ofRoot program)) d =
      (.error e, (runs program .empty (recordsOf p (.ofRoot program)) d).2) := Prod.ext he rfl
  rcases fails_of_runs hsound Reached.empty.within hrun with hexhausted | hinfinite | rfl
  · exact .inl hexhausted
  · exact .inr (.inl hinfinite)
  · exact .inr (.inr ⟨rfl, (inquiry_recordsOf p program).longNumber_of_runs .empty hrun⟩)

/-- Where the analysis comes to an end, no status is infinite and no number is too long, there are
records. -/
lemma exists_records_of_legible {program : Node} (hlegible : program.Legible) {p : Policy}
    (hends : Ends (runs program .empty (recordsOf p (.ofRoot program))))
    (hfinite : ¬InfiniteStatus program) (hshort : ¬LongNumber program) :
    ∃ records, ∀ᶠ d in Filter.atTop, analyzeTo d p program = .ok records := by
  obtain ⟨⟨answer, s⟩, hne, hout⟩ := hends
  cases answer with
  | error e =>
    obtain ⟨d, hd⟩ := hout.exists
    rcases failure_of_legible hlegible (congrArg Prod.fst hd) with rfl | ⟨-, hinfinite⟩ | ⟨-, hlong⟩
    · exact absurd rfl hne
    · exact absurd hinfinite hfinite
    · exact absurd hlong hshort
  | ok records => exact ⟨records, hout.mono fun d hd => congrArg Prod.fst hd⟩

/-- **A legible tree is analyzed without failing**, except in three ways: the depth of queries may not be
enough, whatever it is, a handler may give an infinite number as a status code, and a number may have
too many digits to be displayed.  Where none of these happens there are records; where a status is
infinite there are none. -/
theorem analyzeTo_of_legible {program : Node} (hlegible : program.Legible) :
    (∀ p d e, analyzeTo d p program = .error e →
      e = .exhausted ∨ e = .infiniteStatus ∧ InfiniteStatus program ∨
        e = .longNumber ∧ LongNumber program) ∧
    (∀ p, Ends (runs program .empty (recordsOf p (.ofRoot program))) → ¬InfiniteStatus program →
      ¬LongNumber program → ∃ records, ∀ᶠ d in Filter.atTop, analyzeTo d p program = .ok records) ∧
    (InfiniteStatus program → ∀ d records, analyzeTo d .any program ≠ .ok records) := by
  refine ⟨fun p d e he => failure_of_legible hlegible he,
    fun p => exists_records_of_legible hlegible, fun hinfinite d records hok => ?_⟩
  exact stuck_recordsOf rfl hinfinite .empty records _ (Prod.ext hok rfl)

/-- A route with a status. -/
def statusText (status : String) : String := "app.get('/a', (c) => c.json(1, " ++ status ++ "))
"

/-- There are records for a status that is an integer. -/
theorem exists_records_of_statusText : ∃ program,
    Source.parse .plain (statusText "201") = some program ∧ program.Legible ∧
    ∃ records, ∀ᶠ d in Filter.atTop, analyzeTo d .any program = .ok records := by
  have hspec : (Source.parse .plain (statusText "201")).isSome = true ∧
      QueryFree (programOf (statusText "201")) ∧
      ¬InfiniteStatus (programOf (statusText "201")) ∧
      ¬LongNumber (programOf (statusText "201")) := by
    decide +kernel
  obtain ⟨hparse, hfree, hfinite, hshort⟩ := hspec
  have hends := (inquiry_recordsOf .any (programOf (statusText "201"))).ends .empty (.inl hfree)
  have hprogram := parse_eq_some_programOf hparse
  have hlegible := Source.legible_of_parse hprogram
  exact ⟨_, hprogram, hlegible, (analyzeTo_of_legible hlegible).2.1 .any hends hfinite hshort⟩

/-- **No depth is enough for a file with an infinite status**, though it is well formed. -/
theorem no_records_of_infiniteStatus :
    ∃ program, Source.parse .plain (statusText "1e400") = some program ∧
      ∀ d records, analyzeTo d .any program ≠ .ok records := by
  obtain ⟨program, hparse, hinfinite⟩ : ∃ program,
      Source.parse .plain (statusText "1e400") = some program ∧ InfiniteStatus program :=
    exists_program (by decide +kernel)
  refine ⟨program, hparse, fun d records hok => ?_⟩
  exact stuck_recordsOf rfl hinfinite .empty records _ (Prod.ext hok rfl)

end RouteScribe.Route
