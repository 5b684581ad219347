import Mathlib.Order.Filter.AtTopBot.Basic
import Mathlib.Tactic
import RouteScribe.Proofs.Table
import RouteScribe.Typing.Answer

/-!
# Runs of inference

A run of inference takes a context and a store and ends with an answer or a failure, and with a
store (`Infer.exec`).  Queries are answered to a depth, so what inference gives without a bound is
what the runs give from some depth on: `Gives x c s out` says that the runs of the family `x`, from
the context `c` and the store `s`, all end with `out` once the depth is large enough.  A family
*halts* when it gives something other than the report that the depth was used up.

The rules below compose such statements along the binds of a run, so that later proofs never look at
depths.  The depth that a context carries is only read by the entry points of inference; the rules
quantify over it, and `Infer.toDepth` sets it.
-/

namespace RouteScribe.Typing

open Filter

/-- What is not in a list yet becomes less with each item that was not in it. -/
lemma card_sdiff_cons_lt {α : Type} [DecidableEq α] {items : Finset α} {a : α} {l : List α}
    (ha : a ∈ items) (hl : a ∉ l) :
    (items \ (a :: l).toFinset).card < (items \ l.toFinset).card := by
  refine Finset.card_lt_card ⟨fun b hb => ?_, fun hsub => ?_⟩
  · simp only [Finset.mem_sdiff, List.mem_toFinset, List.mem_cons, not_or] at hb ⊢
    exact ⟨hb.1, hb.2.2⟩
  · have hmem : a ∈ items \ l.toFinset := by simp [ha, hl]
    simpa using hsub hmem

/-- The context with another depth. -/
def Context.atDepth (c : Context) (depth : Nat) : Context := { c with depth }

section

variable (c : Context) (depth : Nat)

@[simp] lemma Context.aliases_atDepth : (c.atDepth depth).aliases = c.aliases := rfl

@[simp] lemma Context.enums_atDepth : (c.atDepth depth).enums = c.enums := rfl

@[simp] lemma Context.resolving_atDepth : (c.atDepth depth).resolving = c.resolving := rfl

@[simp] lemma Context.resolvingAliases_atDepth :
    (c.atDepth depth).resolvingAliases = c.resolvingAliases := rfl

@[simp] lemma Context.displaying_atDepth : (c.atDepth depth).displaying = c.displaying := rfl

end

/-- The context inside the work on the type of an expression. -/
def Context.inExpression (e : Source.Cursor) (c : Context) : Context :=
  { c with resolving := e.key :: c.resolving }

/-- The context inside the resolution of an alias. -/
def Context.inAlias (name : String) (c : Context) : Context :=
  { c with resolvingAliases := name :: c.resolvingAliases }

/-- The context inside the display of an object. -/
def Context.inDisplay (id : Nat) (c : Context) : Context :=
  { c with displaying := id :: c.displaying }

/-- How a run ends: with an answer or a failure, and with a store. -/
abbrev Outcome (α : Type) := Except Failure α × Store

/-- A run that ends with an answer that passes a test. -/
lemma Outcome.exists_ok_of_any {α : Type} {out : Outcome α} {test : α → Bool}
    (h : out.1.toOption.any test = true) : ∃ a s, out = (.ok a, s) ∧ test a = true := by
  obtain ⟨e | a, s⟩ := out
  · cases h
  · exact ⟨a, s, rfl, h⟩

namespace Infer

variable {α β : Type}

/-- A run from a context and a store. -/
def exec (x : Infer α) (c : Context) (s : Store) : Outcome α := (x.run c).run.run s

/-- A run in a context that carries the given depth. -/
def toDepth (depth : Nat) (x : Infer α) : Infer α := withReader (·.atDepth depth) x

section

variable {c : Context} {s : Store}

@[simp] lemma exec_pure (a : α) : (pure a : Infer α).exec c s = (.ok a, s) := rfl

/-- What is done with the outcome of a first run. -/
lemma exec_bind (x : Infer α) (f : α → Infer β) :
    (x >>= f).exec c s = match x.exec c s with
      | (.ok a, s') => (f a).exec c s'
      | (.error e, s') => (.error e, s') := by
  rcases h : x.exec c s with ⟨r, s'⟩
  have hx : x c s = (r, s') := h
  simp only [exec, ReaderT.run, ExceptT.run, StateT.run, Bind.bind, ReaderT.bind, ExceptT.bind,
    ExceptT.mk, ExceptT.bindCont, StateT.bind, hx]
  cases r <;> rfl

lemma exec_bind_ok {x : Infer α} {f : α → Infer β} {a : α} {s' : Store}
    (h : x.exec c s = (.ok a, s')) : (x >>= f).exec c s = (f a).exec c s' := by
  rw [exec_bind, h]

lemma exec_bind_error {x : Infer α} {f : α → Infer β} {e : Failure} {s' : Store}
    (h : x.exec c s = (.error e, s')) : (x >>= f).exec c s = (.error e, s') := by
  rw [exec_bind, h]

/-- The two parts of a run that ends with an answer. -/
lemma exec_bind_eq_ok {x : Infer α} {f : α → Infer β} {b : β} {s' : Store} :
    (x >>= f).exec c s = (.ok b, s') ↔
      ∃ a s₁, x.exec c s = (.ok a, s₁) ∧ (f a).exec c s₁ = (.ok b, s') := by
  rw [exec_bind]
  rcases x.exec c s with ⟨- | a, s₁⟩
  · simp
  · simp

@[simp] lemma exec_read : (read : Infer Context).exec c s = (.ok c, s) := rfl

@[simp] lemma exec_get : (get : Infer Store).exec c s = (.ok s, s) := rfl

@[simp] lemma exec_set (s' : Store) : (set s' : Infer PUnit).exec c s = (.ok ⟨⟩, s') := rfl

@[simp] lemma exec_modify (f : Store → Store) :
    (modify f : Infer PUnit).exec c s = (.ok ⟨⟩, f s) := rfl

@[simp] lemma exec_throw (e : Failure) : (throw e : Infer α).exec c s = (.error e, s) := rfl

@[simp] lemma exec_withReader (f : Context → Context) (x : Infer α) :
    (withReader f x).exec c s = x.exec (f c) s := rfl

@[simp] lemma exec_toDepth (d : Nat) (x : Infer α) :
    (x.toDepth d).exec c s = x.exec (c.atDepth d) s := rfl

@[simp] lemma exec_objectInfo (id : Nat) :
    (objectInfo id).exec c s = (.ok ((s.objects[id]?).getD ⟨none, .known []⟩), s) := rfl

/-- Runs over the items of a list that leave the store as it is. -/
lemma exec_mapM {f : α → Infer β} {b : α → β} {l : List α}
    (h : ∀ a ∈ l, (f a).exec c s = (.ok (b a), s)) : (l.mapM f).exec c s = (.ok (l.map b), s) := by
  induction l with
  | nil => rw [List.mapM_nil, exec_pure, List.map_nil]
  | cons a l ih =>
    have hrest := ih fun a ha => h a (List.mem_cons_of_mem _ ha)
    rw [List.mapM_cons, exec_bind_ok (h a List.mem_cons_self), exec_bind_ok hrest, exec_pure,
      List.map_cons]

lemma runOn_eq (depth : Nat) (root : Source.Cursor) (x : Infer α) :
    x.runOn depth root s = x.exec (Context.ofFile depth root) s := rfl

end

/-! ## Aliases -/

/-- What is left to do for an alias once its declaration was looked at: an object without a name
takes that of the alias, and the alias is resolved. -/
def settleAlias (name : String) (t : Ty) : Infer Ty := do
  if let .object id := t then
    modifyObject id fun o => { o with name := o.name <|> some name }
  modify fun s => { s with aliases := (name, t) :: s.aliases }
  return t

lemma aliases_settleAlias (name : String) (t : Ty) (c : Context) (s : Store) :
    ((settleAlias name t).exec c s).2.aliases = (name, t) :: s.aliases := by
  cases t <;> rfl

section

variable {c : Context} {s : Store} {name : String} {e : Source.Cursor} (ask : Answers)

lemma exec_aliasType_resolved {t : Ty} (h : s.aliases.lookup name = some t) :
    (aliasType ask name e).exec c s = (.ok t, s) := by
  have hget : (aliasType ask name e).exec c s = _ := exec_bind_ok exec_get
  rw [hget, h, exec_pure]

lemma exec_aliasType_open (h : s.aliases.lookup name = none) (hopen : name ∈ c.resolvingAliases) :
    (aliasType ask name e).exec c s = (.ok (.named name []), s) := by
  have hget : (aliasType ask name e).exec c s = _ := exec_bind_ok exec_get
  rw [hget, h]
  dsimp only
  rw [exec_bind_ok exec_read, if_pos (List.contains_iff_mem.2 hopen), exec_pure]

lemma exec_aliasType_new (h : s.aliases.lookup name = none) (hopen : name ∉ c.resolvingAliases) :
    (aliasType ask name e).exec c s =
      (withReader (Context.inAlias name) (declaredType ask name e) >>= settleAlias name).exec c s := by
  have hget : (aliasType ask name e).exec c s = _ := exec_bind_ok exec_get
  rw [hget, h]
  dsimp only
  rw [exec_bind_ok exec_read, if_neg fun hmem => hopen (List.contains_iff_mem.1 hmem)]
  rfl

end

/-! ## Setting the depth -/

lemma toDepth_pure (d : Nat) (a : α) : (pure a : Infer α).toDepth d = pure a := rfl

lemma toDepth_bind (d : Nat) (x : Infer α) (f : α → Infer β) :
    (x >>= f).toDepth d = x.toDepth d >>= fun a => (f a).toDepth d := rfl

lemma toDepth_mapM (d : Nat) (f : α → Infer β) (l : List α) :
    (l.mapM f).toDepth d = l.mapM fun a => (f a).toDepth d := by
  induction l with
  | nil => simp only [List.mapM_nil, toDepth_pure]
  | cons a l ih => simp only [List.mapM_cons, toDepth_bind, toDepth_pure, ih]

end Infer

/-! ## What types are, and the descriptions of objects -/

/-- What a type is if that can be said without a query: a union, or values of one primitive type. -/
def Ty.plainView? (t : Ty) : Option (Schema.View Ty Nat) :=
  match t.unionMembers? with
  | some members => some (.union members)
  | none =>
    if t.isStringLike then some (.primitive .string)
    else if t.isNumberLike then some (.primitive .number)
    else if t.isBooleanLike then some (.primitive .boolean)
    else if t.isNull then some (.primitive .null)
    else if t.isUndefined then some .undefined
    else none

/-- What any other type is: it has elements, values or properties, or is only displayed. -/
def partsView (t : Ty) : Infer (Schema.View Ty Nat) := do
  match ← elementType? ask t, t.mapValue? with
  | some element, _ => return .array element
  | none, some value => return .map value
  | none, none =>
    match t, ← ask _ (.properties t) with
    | .object id, some properties => return .object (some id) properties
    | _, some properties => return .object none properties
    | _, none => return .other (← display t)

lemma view_eq (t : Ty) : view t = match t.plainView? with
    | some v => pure v
    | none => partsView t := by
  unfold view Ty.plainView?
  cases t.unionMembers? with
  | some members => rfl
  | none =>
    dsimp only
    split_ifs <;> rfl

lemma Ty.plainView?_cases {t : Ty} {v : Schema.View Ty Nat} (h : t.plainView? = some v) :
    (∃ members, t = .union members ∧ v = .union members) ∨
    (∃ kind, v = .primitive kind ∧ (kind = .null → t.isNull = true)) ∨
    (v = .undefined ∧ t.isUndefined = true) := by
  unfold plainView? at h
  split at h
  case h_1 members hmembers =>
    cases t <;> cases hmembers
    exact .inl ⟨members, rfl, (Option.some.inj h).symm⟩
  case h_2 =>
    split_ifs at h with _ _ _ hnull hundefined
    all_goals cases h
    case pos => exact .inr (.inl ⟨.string, rfl, nofun⟩)
    case pos => exact .inr (.inl ⟨.number, rfl, nofun⟩)
    case pos => exact .inr (.inl ⟨.boolean, rfl, nofun⟩)
    case pos => exact .inr (.inl ⟨.null, rfl, fun _ => hnull⟩)
    case pos => exact .inr (.inr ⟨rfl, hundefined⟩)

/-- The schema of an object with the given properties, from the schemas of their types: what a level
of description does with objects that are not being described already. -/
def describeMembers (describe : List Nat → Ty → Infer Schema) (inside : List Nat)
    (members : List Property) : Infer Schema := do
  let properties ← members.mapM fun p => do
    let s ← describe inside p.type
    return (p.name, p.optional, s)
  return Schema.ofProperties properties

open Infer

/-! ## What runs give -/

section

variable {α β : Type} {c : Context} {s s' : Store}

/-- The runs of a family end with the outcome from some depth on. -/
def Gives (x : Nat → Infer α) (c : Context) (s : Store) (out : Outcome α) : Prop :=
  ∀ᶠ d in atTop, ∀ e, (x d).exec (c.atDepth e) s = out

/-- The runs of a family come to an end. -/
def Halts (x : Nat → Infer α) (c : Context) (s : Store) : Prop :=
  ∃ out : Outcome α, out.1 ≠ .error .exhausted ∧ Gives x c s out

lemma Gives.unique {x : Nat → Infer α} {out out' : Outcome α} (h : Gives x c s out)
    (h' : Gives x c s out') : out = out' := by
  obtain ⟨d, hd, hd'⟩ := (h.and h').exists
  rw [← hd 0, hd' 0]

lemma gives_pure (a : α) : Gives (fun _ => pure a) c s (.ok a, s) :=
  .of_forall fun _ _ => rfl

lemma Gives.bind {x : Nat → Infer α} {f : Nat → α → Infer β} {a : α} {out : Outcome β}
    (hx : Gives x c s (.ok a, s')) (hf : Gives (fun d => f d a) c s' out) :
    Gives (fun d => x d >>= f d) c s out := by
  filter_upwards [hx, hf] with d hx hf e
  rw [exec_bind_ok (hx e), hf e]

lemma Gives.bind_error {x : Nat → Infer α} {f : Nat → α → Infer β} {e : Failure}
    (hx : Gives x c s (.error e, s')) : Gives (fun d => x d >>= f d) c s (.error e, s') := by
  filter_upwards [hx] with d hx e'
  rw [exec_bind_error (hx e')]

/-- A step whose outcome is the same at every depth. -/
lemma Gives.of_exec {x : Nat → Infer α} {out : Outcome α}
    (h : ∀ d e, (x d).exec (c.atDepth e) s = out) : Gives x c s out :=
  .of_forall h

lemma Gives.congr {x y : Nat → Infer α} {out : Outcome α} (hx : Gives x c s out)
    (h : ∀ d e, (y d).exec (c.atDepth e) s = (x d).exec (c.atDepth e) s) :
    Gives y c s out := by
  filter_upwards [hx] with d hx e
  rw [h d e, hx e]

/-- A query gives what its own rule gives, from one level of queries further down. -/
lemma Gives.answer {q : Query α} {out : Outcome α}
    (h : Gives (fun d => answerWith (answer d) α q) c s out) :
    Gives (fun d => Typing.answer d α q) c s out := by
  obtain ⟨d₀, h₀⟩ := eventually_atTop.1 h
  refine eventually_atTop.2 ⟨d₀ + 1, fun d hd e => ?_⟩
  obtain ⟨d, rfl⟩ : ∃ d', d = d' + 1 := ⟨d - 1, by omega⟩
  exact h₀ d (by omega) e

lemma Gives.toDepth {x : Nat → Infer α} {out : Outcome α} (h : Gives x c s out) :
    Gives (fun d => (x d).toDepth d) c s out := by
  filter_upwards [h] with d h e
  exact h d

/-- A run that reads its context for something other than the depth. -/
lemma Gives.bind_read {f : Nat → Context → Infer α} {out : Outcome α}
    (h : Gives (fun d => f d c) c s out)
    (hf : ∀ d e, f d (c.atDepth e) = f d c) : Gives (fun d => read >>= f d) c s out := by
  filter_upwards [h] with d h e
  rw [exec_bind_ok exec_read, hf, h e]

/-- A run in a changed context, the depth aside. -/
lemma Gives.changed {x : Nat → Infer α} {f : Context → Context} {out : Outcome α}
    (h : Gives x (f c) s out) (hf : ∀ e, f (c.atDepth e) = (f c).atDepth e) :
    Gives (fun d => withReader f (x d)) c s out := by
  filter_upwards [h] with d h e
  rw [exec_withReader, hf, h e]

lemma gives_mapM {f : Nat → α → Infer β} {b : α → β} {l : List α}
    (h : ∀ a ∈ l, Gives (fun d => f d a) c s (.ok (b a), s)) :
    Gives (fun d => l.mapM (f d)) c s (.ok (l.map b), s) := by
  filter_upwards [(eventually_all_finite l.finite_toSet).2 h] with d h e
  exact exec_mapM fun a ha => h a ha e

end

end RouteScribe.Typing
