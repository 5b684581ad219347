import RouteScribe.Proofs.Route.Termination
import RouteScribe.Proofs.Typing.NormedSchemas

/-!
# The schemas of the types of a file

Every type that a file gives to its nodes is normal, whatever was asked before, so all unions in its
schema are in normal form (`normalUnion_of_schemaOf`).  The stores that questions leave behind hold
normal types only, also after questions that had no answer, because a run that fails keeps the norm as
well.
-/

namespace RouteScribe.Typing

open Infer
open Source (Node Cursor)

section

variable {n : Norm} {root : Node} {s : Store}

lemma keeps_anyM {f : Ty → Infer Bool} {ts : List Ty} (h : ∀ t ∈ ts, n.Keeps (f t) fun _ => True) :
    n.Keeps (ts.anyM f) fun _ => True := by
  induction ts with
  | nil => exact keeps_pure trivial
  | cons t ts ih =>
    rw [List.anyM]
    refine (h t List.mem_cons_self).bind fun found _ => ?_
    cases found with
    | false => exact ih fun u hu => h u (List.mem_cons_of_mem _ hu)
    | true => exact keeps_pure trivial

/-- Whatever only inspects normal types keeps to the norm. -/
theorem Inspects.keeps {α : Type} {f : Ty → Infer α} (hask : n.Answers ask)
    (h : Inspects n.root f) {t : Ty} (ht : n.Allows t) : n.Keeps (f t) fun _ => True := by
  induction h generalizing t with
  | pure a => exact keeps_pure trivial
  | throw _ hlong => exact keeps_throw (Norm.excuses_of_ne hlong)
  | bind _ _ ihf ihg => exact (ihf ht).bind fun a _ => ihg a ht
  | fact _ _ ih => exact ih _ ht
  | alternatives _ ih => exact keeps_anyM fun m hm => ih (ht.isMember hm).2
  | schema => exact (keeps_schemaOf hask ht).mono fun _ _ => trivial
  | display => exact hask.display t ht
  | symbol => exact keeps_symbolName? t
  | typeOf he _ ih => exact (hask.typeOf _ he).bind fun u hu => ih hu
  | denoted he _ ih => exact (keeps_denoted hask he).bind fun u hu => ih hu

/-- The norm for a file that asks for nothing but normal types. -/
def looseNorm (root : Node) : Norm := ⟨root, False⟩

lemma answers_loose (root : Node) : (looseNorm root).Answers ask :=
  answers_ask fun d => answers_answer (n := looseNorm root) False.elim False.elim d

lemma of_ofFile (root : Node) (d : Nat) : (Context.ofFile d (Cursor.ofRoot root)).Of root := ⟨rfl, rfl⟩

lemma kept_empty : n.Kept .empty := ⟨fun id shape hid => (by cases hid), by simp [Store.empty]⟩

/-- The stores that questions leave behind hold normal types only. -/
lemma Reached.kept (h : Reached root s) : (looseNorm root).Kept s := by
  induction h with
  | empty => exact kept_empty
  | @after s α x d _ hx ih =>
    have hkeeps := Inspects.keeps (n := looseNorm root) (answers_loose root) hx
      (t := .any) trivial
    obtain ⟨hok, herror⟩ := Norm.keeps_iff.1 hkeeps _ s ⟨of_ofFile root d, ih⟩
    rcases hout : x.exec (Context.ofFile d (Cursor.ofRoot root)) s with ⟨e | a, s'⟩
    · rw [runs, runOn_eq, hout]
      exact (herror e s' hout).2
    · rw [runs, runOn_eq, hout]
      exact (hok a s' hout).2.2

/-- What a run that keeps to the norm gives, after whatever was asked before. -/
lemma Norm.Keeps.of_runs {α : Type} {x : Infer α} {R : α → Prop} {d : Nat} {a : α} {s' : Store}
    (hx : (looseNorm root).Keeps x R) (hs : Reached root s) (h : runs root s x d = (.ok a, s')) :
    R a :=
  ((Norm.keeps_iff.1 hx _ s ⟨of_ofFile root d, hs.kept⟩).1 a s' h).1

/-- Only in a file with a long number does an inquiry fail because a number is too long. -/
lemma Inquiry.longNumber_of_runs {α : Type} {x : Infer α} (hx : Inquiry root x) (hs : Reached root s)
    {d : Nat} {s' : Store} (h : runs root s x d = (.error .longNumber, s')) : LongNumber root := by
  have hkeeps := Inspects.keeps (n := looseNorm root) (answers_loose root) hx (t := .any) trivial
  obtain ⟨hexcuses, -⟩ :=
    (Norm.keeps_iff.1 hkeeps _ s ⟨of_ofFile root d, hs.kept⟩).2 .longNumber s' h
  exact hexcuses rfl

/-- The type that a question asks for is normal. -/
lemma Question.keeps_type {q : Question} (hq : Source.Within root q.node) :
    (looseNorm root).Keeps q.type (looseNorm root).Allows := by
  have hask := answers_loose root
  cases q with
  | typeOf e => exact hask.typeOf e hq
  | denoted e => exact (hask.denoted e hq).mono fun t ht => ht.1

/-- Asking for a type leaves one of the stores that questions leave behind. -/
lemma Reached.after_type (hs : Reached root s) {q : Question} (hq : Source.Within root q.node)
    (d : Nat) : Reached root (runs root s q.type d).2 := by
  have hinquiry : Inquiry root (q.type >>= fun _ => pure ()) := by
    cases q with
    | typeOf e => exact .typeOf hq (.pure ())
    | denoted e => exact .denoted hq (.pure ())
  have hafter := Reached.after d hs hinquiry
  have hstore : (runs root s (q.type >>= fun _ => pure ()) d).2 = (runs root s q.type d).2 := by
    rcases hout : q.type.exec (Context.ofFile d (Cursor.ofRoot root)) s with ⟨e | t, s'⟩
    · rw [runs, runs, runOn_eq, runOn_eq, exec_bind_error hout, hout]
    · rw [runs, runs, runOn_eq, runOn_eq, exec_bind_ok hout, hout, exec_pure]
  rwa [hstore] at hafter

end

/-- **Union schemas are in normal form.**  Take any type that a node of a file has or denotes, after
any questions about the file, and any schema of it, worked out after any questions.  Every union that
occurs in the schema, at any depth, has at least two variants with pairwise different keys, none of
which is a union, is null or admits null. -/
theorem normalUnion_of_schemaOf {program : Node} {s₁ s₂ : Store} (hs₁ : Reached program s₁)
    (hs₂ : Reached program s₂) {q : Question} (hq : Source.Within program q.node) {d₁ d₂ : Nat}
    {t : Ty} {schema : Schema} {s₁' s₂' : Store} (ht : runs program s₁ q.type d₁ = (.ok t, s₁'))
    (hschema : runs program s₂ (schemaOf t) d₂ = (.ok schema, s₂')) {variants : List Schema}
    {nullable : Bool} (hoccurs : Schema.Occurs (.union variants nullable) schema) :
    Schema.NormalUnion variants := by
  have hnormal : t.IsNormal (NumberOf program) := (Question.keeps_type hq).of_runs hs₁ ht
  have hwell : schema.WellFormed :=
    (keeps_schemaOf (answers_loose program) hnormal).of_runs hs₂ hschema
  exact hwell _ hoccurs

end RouteScribe.Typing

namespace RouteScribe.Route

open Typing Infer

/-- A list of values of an enumeration, of a literal and of null, or numbers. -/
def mixedText : String :=
  "enum E \x7b A = 'a', B = 'b' \x7d\nlet x: (E | 'c' | null | 3 | undefined)[]"

/-- The variants of a list of values of a union, or of null. -/
def nullableUnion? : Schema → Option (List Schema)
  | .array (.union variants true) false => some variants
  | _ => none

set_option maxRecDepth 10000 in
/-- The type of the list and its schema, in a fresh store: all strings are one variant. -/
theorem normalUnion_of_mixedText :
    let program := programOf mixedText
    let q := Question.denoted (program.nth 20)
    Source.parse .plain mixedText = some program ∧
      ∃ t s variants s', runs program .empty q.type depthBound = (.ok t, s) ∧
        runs program s (schemaOf t) depthBound = (.ok (.array (.union variants true) false), s') ∧
        variants.length = 2 ∧ Schema.NormalUnion variants := by
  have hspec : (Source.parse .plain mixedText).isSome = true ∧
      (((runs (programOf mixedText) .empty
        ((Question.denoted ((programOf mixedText).nth 20)).type >>= schemaOf)
        depthBound).1.toOption.bind nullableUnion?).map List.length) = some 2 := by
    decide +kernel
  have hparse := parse_eq_some_programOf hspec.1
  obtain ⟨program, hprogram⟩ : ∃ program, programOf mixedText = program := ⟨_, rfl⟩
  rw [hprogram] at hspec hparse ⊢
  intro _ q
  obtain ⟨-, hlength⟩ := hspec
  have hq : Source.Within program q.node := Source.within_nth program 20
  rcases hout : runs program .empty (q.type >>= schemaOf) depthBound with ⟨e | schema, s'⟩
  · rw [hout] at hlength
    cases hlength
  rw [hout] at hlength
  obtain ⟨variants, hvariants, htwo⟩ := Option.map_eq_some_iff.1 hlength
  obtain ⟨t, s, ht, hschema⟩ := exec_bind_eq_ok.1 hout
  obtain rfl : schema = .array (.union variants true) false := by
    match schema, hvariants with
    | .array (.union _ true) false, rfl => rfl
  have hs : Reached program s := by
    have hafter := Reached.empty.after_type hq depthBound
    rwa [show runs program .empty q.type depthBound = (.ok t, s) from ht] at hafter
  exact ⟨hparse, t, s, variants, s', ht, hschema, htwo,
    normalUnion_of_schemaOf .empty hs hq ht hschema (.items .here)⟩

end RouteScribe.Route
