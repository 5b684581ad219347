import RouteScribe.Proofs.Source.Within
import RouteScribe.Proofs.Typing.Renaming
import RouteScribe.Proofs.Typing.Runs
import RouteScribe.Route.Registration

/-!
# What the analysis of routes asks

The analysis of routes never builds a type or takes one apart.  It asks for the types of nodes, and
of such a type only for what says nothing about the identities of objects: its schema, how it is
displayed, the name it is known under, and what is read off it.  `Inspects` says so, and
`inquiry_recordsOf` shows it for the analysis of a file, function by function.

So a fact about all runs of this form needs a proof for the few ways to build them only, and then
holds of the analysis.
-/

namespace RouteScribe.Typing

open Source (Node Cursor)

/-- Work on a type that asks for what does not depend on the identities of objects, and for the types
of other nodes of a file in the same way. -/
inductive Inspects (root : Node) : {α : Type} → (Ty → Infer α) → Prop
  | pure {α : Type} (a : α) : Inspects root fun _ => pure a
  /-- The failures of queries come from queries only. -/
  | throw {α : Type} {e : Failure} : e ≠ .exhausted → e ≠ .longNumber →
    Inspects root fun _ => (throw e : Infer α)
  | bind {α β : Type} {f : Ty → Infer α} {g : Ty → α → Infer β} :
    Inspects root f → (∀ a, Inspects root fun t => g t a) → Inspects root fun t => f t >>= g t
  /-- What is read off the type decides how the work goes on. -/
  | fact {α β : Type} {g : Ty → β} {f : β → Ty → Infer α} :
    (∀ (ρ : Nat → Nat) (t : Ty), g (t.rename ρ) = g t) → (∀ b, Inspects root (f b)) →
      Inspects root fun t => f (g t) t
  | alternatives {f : Ty → Infer Bool} :
    Inspects root f → Inspects root fun t => t.alternatives.anyM f
  | schema : Inspects root schemaOf
  | display : Inspects root display
  | symbol : Inspects root symbolName?
  | typeOf {α : Type} {e : Cursor} {f : Ty → Infer α} :
    Source.Within root e → Inspects root f → Inspects root fun _ => typeOf e >>= f
  | denoted {α : Type} {e : Cursor} {f : Ty → Infer α} :
    Source.Within root e → Inspects root f → Inspects root fun _ => denoted e >>= f

/-- Work that asks for types of nodes of a file only to inspect them. -/
def Inquiry (root : Node) {α : Type} (x : Infer α) : Prop := Inspects root fun _ => x

section

variable {α β : Type} {root : Node} {e : Cursor}

lemma inquiry_pure (a : α) : Inquiry root (pure a) := .pure a

lemma Inquiry.bind {x : Infer α} {f : α → Infer β} (hx : Inquiry root x)
    (hf : ∀ a, Inquiry root (f a)) : Inquiry root (x >>= f) :=
  Inspects.bind hx hf

lemma inquiry_ofNumbers (r : Except Numeral.NotANumber α) : Inquiry root (Infer.ofNumbers r) := by
  cases r with
  | ok a => exact .pure a
  | error e => exact .throw (by simp) (by simp)

lemma inquiry_mapM {f : α → Infer β} {l : List α} (h : ∀ a ∈ l, Inquiry root (f a)) :
    Inquiry root (l.mapM f) := by
  induction l with
  | nil => simpa only [List.mapM_nil] using inquiry_pure []
  | cons a l ih =>
    have hrest := ih fun b hb => h b (List.mem_cons_of_mem _ hb)
    simp only [List.mapM_cons]
    exact (h a List.mem_cons_self).bind fun b => hrest.bind fun bs => inquiry_pure _

lemma inquiry_foldlM {f : β → α → Infer β} {l : List α} (b : β)
    (h : ∀ b, ∀ a ∈ l, Inquiry root (f b a)) : Inquiry root (l.foldlM f b) := by
  induction l generalizing b with
  | nil => simpa only [List.foldlM_nil] using inquiry_pure b
  | cons a l ih =>
    simp only [List.foldlM_cons]
    exact (h b a List.mem_cons_self).bind fun b' =>
      ih b' fun b a ha => h b a (List.mem_cons_of_mem _ ha)

/-- The type of an expression, for what is read off it. -/
lemma inquiry_typeOf_fact {g : Ty → β} (f : β → Infer α) (he : Source.Within root e)
    (hg : ∀ (ρ : Nat → Nat) (t : Ty), g (t.rename ρ) = g t) (hf : ∀ b, Inquiry root (f b)) :
    Inquiry root (do f (g (← typeOf e))) :=
  .typeOf he (.fact (f := fun b _ => f b) hg hf)

/-- A test of the type decides between two ways to go on. -/
lemma Inspects.ite {p : Ty → Bool} {f g : Ty → Infer α} (h : Ty.Blind p)
    (hf : Inspects root f) (hg : Inspects root g) :
    Inspects root fun t => if p t then f t else g t := by
  refine .fact (g := p) (f := fun b t => if b then f t else g t) h fun b => ?_
  cases b with
  | false => simpa only [Bool.false_eq_true, if_false] using hg
  | true => simpa only [if_true] using hf

lemma inquiry_typeOf_read {g : Ty → β} {f : β → Infer α} (he : Source.Within root e)
    (hg : ∀ (ρ : Nat → Nat) (t : Ty), g (t.rename ρ) = g t) (hf : ∀ b, Inquiry root (f b)) :
    Inquiry root (do
      let b ← pure (g (← typeOf e))
      f b) :=
  inquiry_typeOf_fact (fun b => pure b >>= f) he hg fun b => (inquiry_pure b).bind hf

end

end RouteScribe.Typing

namespace RouteScribe.Handler

open Source (Node Cursor Within)
open Typing

variable {root : Node} {c : Cursor}

/-! ## Bytes, statuses and media types -/

lemma inspects_isBinaryAlone : Inspects root isBinaryAlone := by
  refine .bind .symbol fun name => ?_
  rcases name with - | name
  · exact .pure false
  · by_cases hname : binaryNames.contains name
    · simp only [hname, if_true]
      exact .pure true
    · simp only [hname]
      exact .bind .display fun text => .pure _

lemma inspects_isBinary : Inspects root isBinary := .alternatives inspects_isBinaryAlone

/-- The statuses that a literal gives, once the number in its type is known. -/
def codesOfLiteral : Option Numeral → Infer (List Int)
  | none => return []
  | some n =>
    match n.truncate? with
    | some code => return [code]
    | none => throw .infiniteStatus

lemma inquiry_statuses (hc : Within root c) : Inquiry root (statuses c) := by
  have hliterals : Inquiry root (do
      return distinctIntegers ((← typeOf c.unwrap).alternatives.filterMap Ty.numericValue?)) := by
    refine inquiry_typeOf_fact (g := fun t => t.alternatives.filterMap Ty.numericValue?)
      (fun ns => pure (distinctIntegers ns)) hc.unwrap (fun ρ t => ?_) fun n => .pure _
    simp only [Ty.alternatives_rename, List.filterMap_map, Function.comp_def,
      Ty.numericValue?_rename]
  unfold statuses
  dsimp only
  split
  · refine inquiry_typeOf_fact (g := Ty.numericValue?) codesOfLiteral hc.unwrap
      Ty.numericValue?_rename fun n => ?_
    rcases n with - | n
    · exact .pure _
    · dsimp only [codesOfLiteral]
      split
      · exact .pure _
      · exact .throw (by simp) (by simp)
  · split
    · refine (inquiry_ofNumbers _).bind fun member => ?_
      split
      · exact .pure _
      · exact hliterals
    · refine (inquiry_pure none).bind fun member => ?_
      split
      · exact .pure _
      · exact hliterals

lemma inquiry_stringOf? (hc : Within root c) : Inquiry root (stringOf? c) := by
  unfold stringOf?
  split
  · exact .pure _
  · exact .pure _
  · rename_i n hn
    exact inquiry_typeOf_fact (g := Ty.stringValue?) _ (hc.follow hn) Ty.stringValue?_rename
      fun s => .pure s

lemma within_of_option? {options : Option Cursor} {name : String} {value : Cursor}
    (h : ∀ c, options = some c → Within root c) (hvalue : option? options name = some value) :
    Within root value := by
  unfold option? at hvalue
  obtain ⟨c, hoptions, hvalue⟩ := Option.bind_eq_some_iff.1 hvalue
  split at hvalue
  · cases hvalue
  · obtain ⟨pair, hpair, hvalue⟩ := Option.bind_eq_some_iff.1 hvalue
    exact ((h c hoptions).named (List.mem_of_find?_eq_some hpair)).child hvalue

lemma within_getElem? {i : Nat} {arg : Cursor} (hc : Within root c)
    (harg : c.callArguments[i]? = some arg) : Within root arg :=
  hc.arguments (List.mem_of_getElem? harg)

lemma within_head? {arg : Cursor} (hc : Within root c)
    (harg : c.callArguments.head? = some arg) : Within root arg :=
  hc.arguments (List.mem_of_head? harg)

lemma inquiry_option? {options : Option Cursor} (name : String)
    (h : ∀ c, options = some c → Within root c) :
    Inquiry root (match option? options name with
      | some value => stringOf? value
      | none => return none) := by
  split
  · rename_i value hvalue
    exact inquiry_stringOf? (within_of_option? h hvalue)
  · exact .pure _

lemma inquiry_blobMediaType? {value : Option Cursor} (h : ∀ c, value = some c → Within root c) :
    Inquiry root (blobMediaType? value) := by
  unfold blobMediaType?
  rcases value with - | c
  · exact .pure _
  · dsimp only [Option.map_some]
    split
    · exact .pure _
    · exact inquiry_option? "type" fun arg harg => within_getElem? (h c rfl).unwrap harg

lemma inquiry_headerMediaType? (context : Option String) (hc : Within root c) :
    Inquiry root (headerMediaType? context c) := by
  unfold headerMediaType?
  split
  · exact .pure _
  · split
    · rename_i object key value rest _ harguments
      dsimp only
      split
      · refine (inquiry_stringOf? (hc.arguments ?_)).bind fun s => .pure _
        rw [harguments]
        simp
      · exact .pure _
    · exact .pure _

lemma inquiry_explicitMediaType? (context : Option String) (hc : Within root c) :
    Inquiry root (explicitMediaType? context c) :=
  (inquiry_mapM fun _ hd => inquiry_headerMediaType? context (hc.walk hd)).bind fun _ => .pure _

lemma inquiry_initMediaType? {init : Option Cursor} (h : ∀ c, init = some c → Within root c) :
    Inquiry root (initMediaType? init) := by
  unfold initMediaType?
  split
  · exact .pure _
  · rename_i headers hheaders
    split
    · exact .pure _
    · dsimp only
      split
      · rename_i value hvalue
        obtain ⟨pair, hpair, hvalue⟩ := Option.bind_eq_some_iff.1 hvalue
        have hwithin := within_of_option? h hheaders
        exact inquiry_stringOf? ((hwithin.named (List.mem_of_find?_eq_some hpair)).child hvalue)
      · exact .pure _

/-! ## Responses -/

lemma inquiry_contextResponse (explicit : Option String) (name : String) {value : Option Cursor}
    (codes : List Int) (h : ∀ c, value = some c → Within root c) :
    Inquiry root (contextResponse explicit name value codes) := by
  unfold contextResponse
  split
  · rcases value with - | c
    · exact .pure _
    · exact .typeOf (h c rfl) (.bind .schema fun content => .bind .display fun text => .pure _)
  · exact .pure _
  · exact .pure _
  · -- The context says in the same way for both sources of a media type whether it sends text.
    extract_lets plain send
    have hsend (given : Option String) : Inquiry root (send given) := by
      dsimp only [send]
      have hsent (isText : Bool) : Inquiry root (if isText then
          return perStatus codes none
            { bare with content := some .text, mediaType := some (explicit.getD "text/plain") }
        else
          return perStatus codes none
            { bare with content := some .binary
                        mediaType := some (given.getD "application/octet-stream") }) := by
        cases isText <;> exact .pure _
      rcases value with - | c
      · exact (inquiry_pure false).bind hsent
      · exact inquiry_typeOf_read (h c rfl) Ty.isStringLike_rename hsent
    rcases explicit with - | m
    · exact (inquiry_blobMediaType? h).bind fun _ => (inquiry_pure _).bind hsend
    · exact (inquiry_pure (some m)).bind hsend
  · rcases value with - | c
    · exact (inquiry_pure []).bind fun _ => .pure _
    · exact (inquiry_statuses (h c rfl)).bind fun _ => .pure _
  · exact .pure _
  · exact .pure _

lemma inquiry_callResponses (context explicit : Option String) (hc : Within root c) :
    Inquiry root (callResponses context explicit c) := by
  have hresponse (name : String) (codes : List Int) :
      Inquiry root (contextResponse explicit name c.callArguments.head? codes) :=
    inquiry_contextResponse explicit name codes fun _ => within_head? hc
  unfold callResponses
  rcases c.calledMember? with - | ⟨name, receiver⟩
  · exact .pure _
  · dsimp only
    split
    · exact .pure _
    · split
      · rename_i code hcode
        exact (inquiry_statuses (within_getElem? hc hcode)).bind (hresponse name)
      · exact (inquiry_pure []).bind (hresponse name)

lemma inquiry_constructedContent? (hc : Within root c) : Inquiry root (constructedContent? c) := by
  have hcontent (isBytes : Bool) : Inspects root fun t =>
      if isBytes then pure (some .binary)
      else if t.isAny || t.isNullish then pure none
      else do return some (← schemaOf t) := by
    cases isBytes with
    | true => exact .pure _
    | false =>
      have hmissing : Ty.Blind fun t => t.isAny || t.isNullish := by
        intro ρ t
        simp only [Ty.isAny_rename, Ty.isNullish_rename]
      simp only [Bool.false_eq_true, if_false]
      exact .ite hmissing (.pure _) (.bind .schema fun s => .pure _)
  refine .typeOf hc (.ite Ty.blind_isStringLike (.pure _) (.bind inspects_isBinary fun bytes => ?_))
  cases bytes with
  | true => exact .bind (.pure true) hcontent
  | false =>
    have hblob : Inquiry root (blobMediaType? (some c)) :=
      inquiry_blobMediaType? fun d hd => Option.some.inj hd ▸ hc
    exact .bind hblob fun _ => .bind (.pure _) hcontent

lemma inquiry_returnedResponses (explicit : Option String) (hc : Within root c) :
    Inquiry root (returnedResponses explicit c) := by
  unfold returnedResponses
  rcases hbase : c.named.head? with - | base
  · exact .pure _
  · have hwithin : Within root base.unwrap := (hc.named (List.mem_of_head? hbase)).unwrap
    have hinit (d : Cursor) (hd : base.unwrap.callArguments[1]? = some d) : Within root d :=
      within_getElem? hwithin hd
    dsimp -zeta only [Option.map_some]
    extract_lets plain name args init
    split
    · exact .pure _
    · refine (inquiry_initMediaType? hinit).bind fun mediaType => ?_
      extract_lets mediaType last
      have hlast (codes : List Int) : Inquiry root (last codes) := by
        dsimp only [last]
        split
        · rename_i body hbody
          exact (inquiry_constructedContent? (within_head? hwithin hbody)).bind fun _ => .pure _
        · exact (inquiry_pure none).bind fun _ => .pure _
      split
      · rename_i code hcode
        exact (inquiry_statuses (within_of_option? hinit hcode)).bind hlast
      · exact (inquiry_pure []).bind hlast

lemma inquiry_responses (context : Option String) (hc : Within root c) :
    Inquiry root (responses context c) := by
  refine (inquiry_explicitMediaType? context hc).bind fun explicit => ?_
  refine (inquiry_mapM fun d hd => ?_).bind fun _ => .pure _
  split
  · exact inquiry_callResponses context explicit (hc.walk hd)
  · exact inquiry_returnedResponses explicit (hc.walk hd)
  · exact .pure _

/-! ## Requests -/

lemma inquiry_readDeclarator (context : Option String) (r : Request) (hc : Within root c) :
    Inquiry root (readDeclarator context r c) := by
  unfold readDeclarator
  split
  · exact .pure _
  · rename_i value call hcall
    obtain ⟨value', hvalue, hcall⟩ := Option.bind_eq_some_iff.1 hcall
    obtain ⟨call', -, hpair⟩ := Option.map_eq_some_iff.1 hcall
    have hwithin : Within root value := (Prod.mk.inj hpair).1 ▸ hc.child hvalue
    extract_lets read
    have hread (declared : Option Schema) : Inquiry root (read declared) := by
      dsimp only [read]
      by_cases hjson : (r.body.isNone && isRequestCall context "json" call) = true
      · simp only [hjson, if_true]
        rcases declared with - | s
        · exact .typeOf hwithin (.bind .schema fun s => .bind (.pure _) fun _ => .pure _)
        · exact (inquiry_pure _).bind fun _ => .pure _
      · simp only [hjson]
        exact (inquiry_pure _).bind fun _ => .pure _
    rcases hannotation : c.child? .type with - | annotation
    · exact (inquiry_pure none).bind hread
    · exact .denoted (hc.child hannotation) (.bind .schema fun s => .bind (.pure _) hread)

lemma inquiry_request (context : Option String) (hc : Within root c) :
    Inquiry root (request context c) := by
  refine inquiry_foldlM _ fun r d hd => ?_
  split
  · exact inquiry_readDeclarator context r (hc.walk hd)
  · exact .pure _
  · exact .pure _

end RouteScribe.Handler

namespace RouteScribe.Route

open Source (Node Cursor Within)
open Typing

variable {root : Node} {c : Cursor}

/-! ## Registrations -/

lemma within_chainStart? {n : Nat} {start : Cursor} (hc : Within root c)
    (h : chainStart? n c = some start) : Within root start := by
  induction n generalizing c with
  | zero => cases h
  | succ n ih =>
    unfold chainStart? at h
    split at h
    · cases h
      exact hc
    · split at h
      · cases h
      · rename_i name receiver hmember
        split at h
        · exact ih (hc.calledMember hmember).unwrap h
        · cases h

lemma within_handler? {handler : Cursor} (hc : Within root c) (h : handler? c = some handler) :
    Within root handler := by
  obtain ⟨arg, harg, hfunction⟩ := List.exists_of_findSome?_eq_some h
  exact (hc.arguments (List.mem_of_mem_drop (List.mem_reverse.1 harg))).function hfunction

lemma inquiry_isRouter (types : List String) (hc : Within root c) :
    Inquiry root (isRouter types c) := by
  unfold isRouter
  split
  · exact .pure _
  · rename_i start hstart
    exact .typeOf (within_chainStart? hc.unwrap hstart) (.bind .symbol fun _ => .pure _)

lemma inquiry_admits (p : Policy) (hc : Within root c) : Inquiry root (p.admits c) := by
  unfold Policy.admits
  split
  · exact .pure _
  · rename_i types _ name receiver hmember
    exact inquiry_isRouter types (hc.calledMember hmember)
  · exact .pure _

lemma inquiry_recordOf (method : Method) (path : String) (hc : Within root c) :
    Inquiry root (recordOf method path c) := by
  unfold recordOf
  dsimp only
  split
  · rename_i body hbody
    obtain ⟨handler, hhandler, hbody⟩ := Option.bind_eq_some_iff.1 hbody
    have hwithin : Within root body := (within_handler? hc hhandler).child hbody
    refine (Handler.inquiry_responses _ hwithin).bind fun responses => ?_
    exact (Handler.inquiry_request _ hwithin).bind fun request => (inquiry_pure _).bind fun _ => .pure _
  · exact (inquiry_pure _).bind fun _ => .pure _

/-- The analysis of a file asks for types of nodes only to inspect them. -/
theorem inquiry_recordsOf (p : Policy) (root : Node) :
    Inquiry root (recordsOf p (Cursor.ofRoot root)) := by
  refine (inquiry_mapM fun c hc => ?_).bind fun _ => .pure _
  have hwithin : Within root c := Within.root.walk hc
  split
  · exact .pure _
  · refine (inquiry_admits p hwithin).bind fun admitted => ?_
    cases admitted with
    | false => exact .pure _
    | true => exact (inquiry_recordOf _ _ hwithin).bind fun _ => .pure _

end RouteScribe.Route
