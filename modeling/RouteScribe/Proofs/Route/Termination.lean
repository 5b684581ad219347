import RouteScribe.Proofs.Route.Inquiry
import RouteScribe.Proofs.Typing.Termination
import RouteScribe.Source.Program

/-!
# When the analysis of a file comes to an end

The analysis of a file, and every question about its nodes, comes to an end exactly when the number
of objects that it creates is bounded (`ends_iff_objectsBounded`).  The guards against aliases,
expressions, shapes and descriptions that refer to themselves leave no other way to go on for ever.
In a file without type queries the number of objects is bounded, so everything comes to an end.

Type queries are different.  The type of a variable is worked out anew wherever a type query asks for
it, so an object type whose property is the type of a variable of that same type gives a new object
each time its properties are asked for; no two of these objects are the same, and no guard sees the
repetition.
-/

namespace RouteScribe.Typing

open Filter Infer
open Source (Node Cursor)

/-! ## Steady runs -/

/-- A run that stays in a file and comes to an end if the file has no type queries, or if the number
of objects stays within a bound. -/
structure Steady (root : Node) (c : Context) {α : Type} (x : Infer α) : Prop where
  within : ∀ d s, s.Within root → (x.exec (c.atDepth d) s).2.Within root
  grows : ∀ d s, s.Within root → s.objects.size ≤ (x.exec (c.atDepth d) s).2.objects.size
  ends : ∀ s, s.Within root → QueryFree root ∨ (∃ bound, Bounded bound (x.toDepth ·) c s) →
    Halts (x.toDepth ·) c s

section

variable {α β : Type} {root : Node} {c : Context}

/-- Runs that are tame at a cost that depends neither on the bound nor on what remains to do. -/
lemma Steady.of_tame {x : Infer α} {n : Nat}
    (h : ∀ bound ending m, Tame ⟨root, bound, ending⟩ m c n (x.toDepth ·)) : Steady root c x where
  within d s hs := ((h 0 True 0).spends d d s hs).within
  grows d s hs := ((h 0 True 0).spends d d s hs).grows.size
  ends s hs hb := by
    have hbound : ∃ bound, Bounded bound (x.toDepth ·) c s := by
      rcases hb with hfree | hb
      · refine ⟨s.held + c.credit s + n, .of_forall fun d => ⟨d, ?_⟩⟩
        have hheld := ((h 0 True 0).spends d d s hs).held hfree
        exact (Store.size_le_held _).trans hheld
      · exact hb
    obtain ⟨bound, hb⟩ := hbound
    let w : Setting := ⟨root, bound, True⟩
    exact (h bound True (w.remaining c s + 1)).ends trivial s hs (Nat.lt_succ_self _) hb

lemma steady_pure (a : α) : Steady root c (pure a) :=
  .of_tame (n := 0) fun _ _ _ => tame_pure a

/-- The first of two runs leaves no more objects than both. -/
lemma Steady.size_le_bind {x : Infer α} {f : α → Infer β} {s : Store} (hx : Steady root c x)
    (hf : ∀ a, Steady root c (f a)) (d : Nat) (hs : s.Within root) :
    (x.exec (c.atDepth d) s).2.objects.size ≤ ((x >>= f).exec (c.atDepth d) s).2.objects.size := by
  have hfirst := hx.within d s hs
  rcases hout : x.exec (c.atDepth d) s with ⟨err | a, s'⟩
  · rw [exec_bind_error hout]
  · rw [exec_bind_ok hout]
    rw [hout] at hfirst
    exact (hf a).grows d s' hfirst

lemma Steady.bind {x : Infer α} {f : α → Infer β} (hx : Steady root c x)
    (hf : ∀ a, Steady root c (f a)) : Steady root c (x >>= f) where
  within d s hs := by
    have hfirst := hx.within d s hs
    rcases hout : x.exec (c.atDepth d) s with ⟨err | a, s'⟩
    · rw [exec_bind_error hout]
      rwa [hout] at hfirst
    · rw [exec_bind_ok hout]
      rw [hout] at hfirst
      exact (hf a).within d s' hfirst
  grows d s hs := (hx.grows d s hs).trans (hx.size_le_bind hf d hs)
  ends s hs hb := by
    have hbx : QueryFree root ∨ ∃ bound, Bounded bound (x.toDepth ·) c s := by
      refine hb.imp_right fun ⟨bound, hb⟩ => ⟨bound, ?_⟩
      filter_upwards [hb] with d ⟨e, hb⟩
      exact ⟨e, (hx.size_le_bind hf d hs).trans hb⟩
    obtain ⟨⟨err | a, s'⟩, hne, hgives⟩ := hx.ends s hs hbx
    · exact ⟨(.error err, s'), fun h => hne (by simpa using h), hgives.bind_error⟩
    · obtain ⟨d, hd⟩ := hgives.exists
      have hfirst : s'.Within root := by
        have hwithin := hx.within d s hs
        rwa [show x.exec (c.atDepth d) s = (.ok a, s') from hd 0] at hwithin
      have hbf : QueryFree root ∨ ∃ bound, Bounded bound ((f a).toDepth ·) c s' := by
        refine hb.imp_right fun ⟨bound, hb⟩ => ⟨bound, ?_⟩
        filter_upwards [hb, hgives] with d ⟨e, hb⟩ hgives
        rw [toDepth_bind, exec_bind_ok (hgives e)] at hb
        exact ⟨e, hb⟩
      obtain ⟨out, hne', hgives'⟩ := (hf a).ends s' hfirst hbf
      exact ⟨out, hne', hgives.bind hgives'⟩

lemma steady_anyM {f : Ty → Infer Bool} (h : ∀ t, Steady root c (f t)) (ts : List Ty) :
    Steady root c (ts.anyM f) := by
  induction ts with
  | nil => exact steady_pure false
  | cons t ts ih =>
    simp only [List.anyM]
    refine (h t).bind fun found => ?_
    cases found with
    | false => exact ih
    | true => exact steady_pure true

lemma steady_symbolName? (t : Ty) : Steady root c (symbolName? t) := by
  refine .of_tame (n := 0) fun _ _ _ => ?_
  cases t with
  | object id => exact (tame_objectInfo id).bind_last fun _ => tame_pure _
  | _ => exact tame_pure _

/-- Whatever only inspects types is steady. -/
theorem Inspects.steady {f : Ty → Infer α} (hc : ∀ a ∈ c.aliases, Source.Within root a.2)
    (h : Inspects root f) (t : Ty) : Steady root c (f t) := by
  have hasks (bound : Nat) (ending : Prop) (m : Nat) :
      Asks ⟨root, bound, ending⟩ m (root.size + 1) c answer := asks_answer _ m hc
  have htypeOf {e : Cursor} (he : Source.Within root e) : Steady root c (Typing.typeOf e) :=
    .of_tame (n := typeCost root.size (root.keys \ c.resolving.toFinset).card)
      fun bound ending m => ((hasks bound ending m).typeOf e he).toDepth
  have hdenoted {e : Cursor} (he : Source.Within root e) : Steady root c (Typing.denoted e) :=
    .of_tame fun bound ending m =>
      ((hasks bound ending m).denoted e he (Nat.lt_succ_of_le he.size_le)).toDepth
  induction h generalizing t with
  | pure a => exact steady_pure a
  | throw he _ => exact .of_tame (n := 0) fun _ _ _ => tame_throw he
  | bind _ _ ihf ihg => exact (ihf t).bind fun a => ihg a t
  | fact _ _ ih => exact ih _ t
  | alternatives _ ih => exact steady_anyM ih _
  | schema =>
    exact .of_tame (n := 0) fun bound ending m => tame_schemaOf (w := ⟨root, bound, ending⟩) hc t
  | display => exact .of_tame fun bound ending m => ((hasks bound ending m).display t).toDepth
  | symbol => exact steady_symbolName? t
  | typeOf he _ ih => exact (htypeOf he).bind ih
  | denoted he _ ih => exact (hdenoted he).bind ih

end

/-! ## Runs on a file -/

/-- The runs come to an end: from some depth on they all end alike, and not because the depth was
used up. -/
def Ends {α : Type} (run : Nat → Outcome α) : Prop :=
  ∃ out : Outcome α, out.1 ≠ .error .exhausted ∧ ∀ᶠ d in atTop, run d = out

/-- The runs leave at most so many objects, at whatever depth. -/
def ObjectsBounded {α : Type} (run : Nat → Outcome α) : Prop :=
  ∃ bound, ∀ d, (run d).2.objects.size ≤ bound

/-- The runs on a file that start from a store. -/
def runs {α : Type} (root : Node) (s : Store) (x : Infer α) (d : Nat) : Outcome α :=
  x.runOn d (Cursor.ofRoot root) s

/-- The stores that questions about a file can leave behind, one after the other, whatever becomes of
each question. -/
inductive Reached (root : Node) : Store → Prop
  | empty : Reached root .empty
  | after {s : Store} {α : Type} {x : Infer α} (d : Nat) :
    Reached root s → Inquiry root x → Reached root (runs root s x d).2

section

variable {α : Type} {root : Node} {s : Store}

/-- The declarations that are read at the start are nodes of the file. -/
lemma within_of_mem_declarationsOf {kinds : List Source.Kind} {a : String × Cursor}
    (h : a ∈ declarationsOf kinds (Cursor.ofRoot root)) : Source.Within root a.2 := by
  obtain ⟨c, hc, rfl⟩ := List.mem_map.1 h
  exact Source.Within.root.walk (List.mem_of_mem_filter hc)

lemma Inquiry.steady {x : Infer α} (h : Inquiry root x) :
    Steady root (Context.ofFile 0 (Cursor.ofRoot root)) x :=
  Inspects.steady (fun _ ha => within_of_mem_declarationsOf ha) h .any

lemma Reached.within (h : Reached root s) : s.Within root := by
  induction h with
  | empty => exact fun o ho => absurd ho (by simp [Store.empty])
  | after d _ hx ih => exact hx.steady.within d _ ih

/-- Runs that come to an end leave boundedly many objects: beyond some depth always the same store,
and before it one of finitely many. -/
lemma Ends.objectsBounded {run : Nat → Outcome α} (h : Ends run) : ObjectsBounded run := by
  obtain ⟨out, -, hout⟩ := h
  obtain ⟨d₀, hd₀⟩ := eventually_atTop.1 hout
  refine ⟨out.2.objects.size + ((List.range d₀).map fun d => (run d).2.objects.size).sum,
    fun d => ?_⟩
  by_cases hd : d₀ ≤ d
  · rw [hd₀ d hd]
    exact Nat.le_add_right _ _
  · have hmem : (run d).2.objects.size ∈ (List.range d₀).map fun d => (run d).2.objects.size :=
      List.mem_map.2 ⟨d, List.mem_range.2 (not_le.1 hd), rfl⟩
    exact (List.single_le_sum (fun _ _ => Nat.zero_le _) _ hmem).trans (Nat.le_add_left _ _)

lemma Inquiry.ends {x : Infer α} (h : Inquiry root x) (hs : Reached root s)
    (hb : QueryFree root ∨ ObjectsBounded (runs root s x)) : Ends (runs root s x) := by
  have hbounded : QueryFree root ∨ ∃ bound,
      Bounded bound (x.toDepth ·) (Context.ofFile 0 (Cursor.ofRoot root)) s :=
    hb.imp_right fun ⟨bound, hb⟩ => ⟨bound, .of_forall fun d => ⟨d, hb d⟩⟩
  obtain ⟨out, hne, hgives⟩ := h.steady.ends s hs.within hbounded
  refine ⟨out, hne, ?_⟩
  filter_upwards [hgives] with d hgives
  exact hgives d

lemma Inquiry.ends_iff {x : Infer α} (h : Inquiry root x) (hs : Reached root s) :
    Ends (runs root s x) ↔ ObjectsBounded (runs root s x) :=
  ⟨Ends.objectsBounded, fun hb => h.ends hs (.inr hb)⟩

end

/-! ## Questions -/

/-- A question about a node: the type it has as an expression, or the type it denotes. -/
inductive Question where
  | typeOf (e : Cursor)
  | denoted (e : Cursor)

namespace Question

/-- The node that is asked about. -/
def node : Question → Cursor
  | typeOf e | denoted e => e

/-- The type that is asked for. -/
def type : Question → Infer Ty
  | typeOf e => Typing.typeOf e
  | denoted e => Typing.denoted e

/-- The schema of the type that is asked for, and how it is displayed. -/
def answer (q : Question) : Infer (Schema × String) := do
  let t ← q.type
  let schema ← schemaOf t
  return (schema, ← display t)

lemma inquiry_answer {root : Node} {q : Question} (h : Source.Within root q.node) :
    Inquiry root q.answer := by
  have hanswer : Inspects root fun t => do
      let schema ← schemaOf t
      return (schema, ← display t) :=
    .bind .schema fun _ => .bind .display fun _ => .pure _
  cases q with
  | typeOf e => exact .typeOf h hanswer
  | denoted e => exact .denoted h hanswer

end Question

end RouteScribe.Typing

namespace RouteScribe.Route

open Source (Node Cursor)
open Typing

/-- **The analysis of a file comes to an end exactly when it creates boundedly many objects**, under
every policy, and so does each question about a node, whatever was asked before.  Without type
queries in the file they always come to an end. -/
theorem ends_iff_objectsBounded (program : Node) :
    (∀ p : Policy, Ends (runs program .empty (recordsOf p (.ofRoot program))) ↔
      ObjectsBounded (runs program .empty (recordsOf p (.ofRoot program)))) ∧
    (∀ s, Reached program s → ∀ q : Question, Source.Within program q.node →
      (Ends (runs program s q.answer) ↔ ObjectsBounded (runs program s q.answer))) ∧
    (QueryFree program →
      (∀ p : Policy, Ends (runs program .empty (recordsOf p (.ofRoot program)))) ∧
      ∀ s, Reached program s → ∀ q : Question, Source.Within program q.node →
        Ends (runs program s q.answer)) := by
  refine ⟨fun p => ?_, fun s hs q hq => ?_, fun hfree => ⟨fun p => ?_, fun s hs q hq => ?_⟩⟩
  · exact (inquiry_recordsOf p program).ends_iff .empty
  · exact (Question.inquiry_answer hq).ends_iff hs
  · exact (inquiry_recordsOf p program).ends .empty (.inl hfree)
  · exact (Question.inquiry_answer hq).ends hs (.inl hfree)

/-- A type that refers to itself, and a route that answers with a variable of that type. -/
def recursiveText : String := "type N = \x7b n: N \x7d\nlet x: N\na.get('/', c => c.json(x))\n"

/-- The tree of a text, if the text is well formed. -/
def programOf (text : String) : Node := (Source.parse .plain text).getD default

lemma parse_eq_some_programOf {text : String} (h : (Source.parse .plain text).isSome = true) :
    Source.parse .plain text = some (programOf text) := by
  rw [programOf, ← Option.get_eq_getD _ (h := h), Option.some_get]

/-- A program of which only what was checked is known, so that its text is not read again. -/
lemma exists_program {text : String} {P : Node → Prop}
    (h : (Source.parse .plain text).isSome = true ∧ P (programOf text)) :
    ∃ program, Source.parse .plain text = some program ∧ P program :=
  ⟨_, parse_eq_some_programOf h.1, h.2⟩

theorem ends_recursiveProgram :
    let program := programOf recursiveText
    Source.parse .plain recursiveText = some program ∧ QueryFree program ∧
      Ends (runs program .empty (recordsOf .any (.ofRoot program))) ∧
      ∀ i, Ends (runs program .empty (Question.typeOf (program.nth i)).answer) := by
  have hspec : (Source.parse .plain recursiveText).isSome = true ∧
      QueryFree (programOf recursiveText) := by
    decide +kernel
  have hparse := parse_eq_some_programOf hspec.1
  obtain ⟨program, hprogram⟩ : ∃ program, programOf recursiveText = program := ⟨_, rfl⟩
  rw [hprogram] at hspec hparse ⊢
  have hends := (ends_iff_objectsBounded program).2.2 hspec.2
  exact ⟨hparse, hspec.2, hends.1 .any, fun i =>
    hends.2 .empty .empty (.typeOf (program.nth i)) (Source.within_nth _ i)⟩

end RouteScribe.Route
