import RouteScribe.Proofs.Route.Termination
import RouteScribe.Proofs.Typing.MovedExpression

/-!
# What earlier questions change

Inference keeps a store from question to question.  Objects that are in it already do no harm: new
ones come behind them, and nothing that is asked for tells identities apart.  What is kept of
aliases can do harm.  An alias that was resolved while another one was being resolved stands for a
type in which the other is known by its name only, and stays so.

`answers_independent` says that this is the only way in which earlier questions change an answer: as
long as a question resolves no alias that was resolved before it, it is answered as in a fresh store,
and so is the analysis of a route.  It does not say that every other question is answered differently.  `answers_depend_on_history` is a file with two aliases that refer
to each other, where the answer for one depends on whether the other was asked for first.
-/

namespace RouteScribe.Typing

open Infer
open Source (Node Cursor)

/-! ## Inquiries in another store -/

section

variable {α : Type} {root : Node} {v : Relocation} {c : Context}

lemma moved_symbolName? (t : Ty) :
    Moved v c id (symbolName? t) (symbolName? (t.rename v.place)) := by
  cases t
  case object id => exact (moved_objectInfo id).bind fun _ => moved_pure rfl
  all_goals exact moved_pure rfl

/-- Whatever only inspects types ends alike in both stores. -/
theorem Inspects.moved {f : Ty → Infer α} (h : Inspects root f) (t : Ty) :
    Moved v c id (f t) (f (t.rename v.place)) := by
  induction h generalizing t with
  | pure a => exact moved_pure rfl
  | throw _ _ => exact moved_throw _ _
  | bind _ _ ihf ihg => exact (ihf t).bind fun a => ihg a t
  | fact hg _ ih =>
    dsimp only
    rw [hg]
    exact ih _ t
  | alternatives _ ih =>
    dsimp only
    rw [Ty.alternatives_rename]
    exact moved_anyM fun u _ => ih u
  | schema => exact moved_schemaOf t
  | display => exact (carries_ask v).display c t
  | symbol => exact moved_symbolName? t
  | typeOf _ _ ih => exact ((carries_ask v).typeOf c _).bind ih
  | denoted _ _ ih => exact ((carries_ask v).denoted c _).bind ih

lemma Inquiry.moved {x : Infer α} (h : Inquiry root x) : Moved v c id x x := Inspects.moved h .any

end

/-! ## A fresh store in a store -/

/-- New objects come behind those of a store, and its aliases are out of sight. -/
def Store.behind (s : Store) : Relocation where
  place i := s.objects.size + i
  injective := add_right_injective s.objects.size
  hidden := s.resolved

/-- Every store holds the fresh one. -/
lemma embeds_empty (s : Store) : Embeds s.behind .empty s where
  next i := by simp [Store.behind, Store.empty]
  objects id := by simp [Store.behind, Store.empty]
  aliases name hname := by
    have hnone : s.aliases.lookup name = none := by
      rcases hlookup : s.aliases.lookup name with - | t
      · rfl
      · exact absurd (List.mem_map_of_mem (f := (·.1)) (mem_of_lookup hlookup)) hname
    rw [hnone]
    rfl

section

variable {α : Type} {root : Node} {s : Store}

/-- An inquiry that resolves no alias that a store has resolved ends there as in the fresh store. -/
lemma Inquiry.runs_eq {x : Infer α} (h : Inquiry root x) {d : Nat} {a : α} {s₁ : Store}
    (hfresh : runs root .empty x d = (.ok a, s₁)) (hnew : ∀ name ∈ s₁.resolved, name ∉ s.resolved) :
    (runs root s x d).1 = .ok a := by
  have hmoved : Moved s.behind (Context.ofFile d (Cursor.ofRoot root)) id x x := h.moved
  obtain ⟨s₁', hrun, -⟩ := hmoved.moves (by simp [Context.ofFile, Context.ofRoot, Relocation.Sees]) (embeds_empty s)
    hfresh hnew
  exact congrArg Prod.fst hrun

/-- Only declared aliases are resolved. -/
lemma Reached.declared (h : Reached root s) {name : String} (hname : name ∈ s.resolved) :
    name ∈ (Context.ofFile 0 (Cursor.ofRoot root)).aliases.map (·.1) := by
  induction h with
  | empty => cases hname
  | @after s _ x d _ hx ih =>
    have hmoved : Moved s.behind (Context.ofFile d (Cursor.ofRoot root)) id x x := hx.moved
    rcases (hmoved.follows s).declared name hname with hbefore | hdeclared
    · exact ih hbefore
    · exact hdeclared

end

end RouteScribe.Typing

namespace RouteScribe.Route

open Source (Node Cursor)
open Typing

/-! ## Answers -/

/-- **Earlier questions change answers through the aliases they resolved only.**  Whatever was asked
before, a question about a node gives the schema and the text that it gives in a fresh store, and a
route has the record that it has in a fresh store, if they resolve no alias that was resolved before.
The condition is sufficient only: an alias that was resolved before may well stand for the type that it
would stand for otherwise.  In a file without aliases and interfaces nothing depends on what was asked
before. -/
theorem answers_independent (program : Node) (s : Store) (hs : Reached program s) :
    (∀ q : Question, Source.Within program q.node → ∀ d a s₁,
      runs program .empty q.answer d = (.ok a, s₁) →
      (∀ name ∈ s₁.resolved, name ∉ s.resolved) → (runs program s q.answer d).1 = .ok a) ∧
    (∀ call, Source.Within program call → ∀ method path d r s₁,
      runs program .empty (recordOf method path call) d = (.ok r, s₁) →
      (∀ name ∈ s₁.resolved, name ∉ s.resolved) →
      (runs program s (recordOf method path call) d).1 = .ok r) ∧
    (declarationsOf [.typeAliasDeclaration, .interfaceDeclaration] (.ofRoot program) = [] →
      (∀ q : Question, Source.Within program q.node → ∀ d a,
        (runs program .empty q.answer d).1 = .ok a → (runs program s q.answer d).1 = .ok a) ∧
      ∀ call, Source.Within program call → ∀ method path d r,
        (runs program .empty (recordOf method path call) d).1 = .ok r →
        (runs program s (recordOf method path call) d).1 = .ok r) := by
  refine ⟨fun q hq d a s₁ => (Question.inquiry_answer hq).runs_eq,
    fun call hcall method path d r s₁ => (inquiry_recordOf method path hcall).runs_eq,
    fun hnone => ?_⟩
  have hnew (s₁ : Store) : ∀ name ∈ s₁.resolved, name ∉ s.resolved := by
    intro name _ hname
    have hdeclared := hs.declared hname
    simp only [Context.ofFile, Context.ofRoot, hnone, List.map_nil, List.not_mem_nil] at hdeclared
  refine ⟨fun q hq d a hfresh => ?_, fun call hcall method path d r hfresh => ?_⟩
  · exact (Question.inquiry_answer hq).runs_eq (Prod.ext hfresh rfl) (hnew _)
  · exact (inquiry_recordOf method path hcall).runs_eq (Prod.ext hfresh rfl) (hnew _)

/-- Two interfaces that have nothing to do with each other, and a variable of each. -/
def separateProgram : Node :=
  programOf "interface A \x7b x: A \x7d\ninterface B \x7b y: B \x7d\nlet a: A\nlet b: B\n"

set_option maxRecDepth 10000 in
/-- The type of the second variable, after the type of the first was asked for. -/
theorem answers_independent_separateProgram :
    let first : Question := .denoted (separateProgram.nth 27)
    let second : Question := .denoted (separateProgram.nth 34)
    let s := (runs separateProgram .empty first.answer depthBound).2
    s.resolved = ["A"] ∧ ∃ a, (runs separateProgram .empty second.answer depthBound).1 = .ok a ∧
      (runs separateProgram s second.answer depthBound).1 = .ok a := by
  have hspec :
      (runs separateProgram .empty (Question.denoted (separateProgram.nth 27)).answer
        depthBound).2.resolved = ["A"] ∧
      (runs separateProgram .empty (Question.denoted (separateProgram.nth 34)).answer
        depthBound).2.resolved = ["B"] ∧
      (runs separateProgram .empty (Question.denoted (separateProgram.nth 34)).answer
        depthBound).1.toOption.isSome = true := by
    decide +kernel
  obtain ⟨program, hprogram⟩ : ∃ program, separateProgram = program := ⟨_, rfl⟩
  rw [hprogram] at hspec ⊢
  intro first second s
  obtain ⟨hfirst, hsecond, hok⟩ := hspec
  have hreached : Reached program s :=
    .after depthBound .empty (Question.inquiry_answer (Source.within_nth program 27))
  rcases hrun : runs program .empty second.answer depthBound with ⟨err | a, s₁⟩
  · rw [hrun] at hok
    cases hok
  · rw [hrun] at hsecond
    refine ⟨hfirst, a, rfl, (answers_independent program s hreached).1 second
      (Source.within_nth program 34) depthBound a s₁ hrun ?_⟩
    rw [show s₁.resolved = ["B"] from hsecond, show s.resolved = ["A"] from hfirst]
    decide

/-! ## Aliases that refer to each other -/

/-- Two aliases that refer to each other, and a variable of each. -/
def cyclicText : String := "type A = B[]\ntype B = A | string\nlet a: A\nlet b: B\n"

/-- **An answer that depends on what was asked before**: after the type of the first variable was
asked for, the type of the second is displayed in another way. -/
theorem answers_depend_on_history : ∃ program s, ∃ q : Question,
    Source.parse .plain cyclicText = some program ∧ Reached program s ∧
      Source.Within program q.node ∧
      (runs program .empty q.answer depthBound).1.map (·.2) = .ok "B[] | string" ∧
      (runs program s q.answer depthBound).1.map (·.2) = .ok "A | string" := by
  obtain ⟨program, hparse, hanswers⟩ : ∃ program, Source.parse .plain cyclicText = some program ∧
      (runs program .empty (Question.denoted (program.nth 28)).answer depthBound).1.map (·.2) =
        .ok "B[] | string" ∧
      (runs program (runs program .empty (Question.denoted (program.nth 21)).answer depthBound).2
        (Question.denoted (program.nth 28)).answer depthBound).1.map (·.2) = .ok "A | string" :=
    exists_program (by decide +kernel)
  have hreached :
      Reached program (runs program .empty (Question.denoted (program.nth 21)).answer depthBound).2 :=
    .after depthBound .empty (Question.inquiry_answer (Source.within_nth program 21))
  exact ⟨program, _, .denoted (program.nth 28), hparse, hreached, Source.within_nth program 28,
    hanswers⟩

end RouteScribe.Route
