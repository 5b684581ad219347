import RouteScribe.Handler.Response
import RouteScribe.Proofs.Route.Termination
import RouteScribe.Proofs.Source.Chains

/-!
# Strings behind names

A string can stand behind a chain of variables.  Two parts of the analysis go along such chains: the
search for a string, that follows variables in the tree, and inference, that works out the type of each
name.  The search asks inference only for the type of a name without an initial value, at the end of its
chain.  Where all variables on the way are constants without annotations, both find the same string
(`IsConstant`).
-/

namespace RouteScribe.Route

open Filter Relation
open Source (Node Cursor Within KeysBefore)
open Source.Cursor (EndsAt Follows Revisits)
open Typing Infer
open Handler (stringOf?)

variable {root : Node} {c d : Cursor} {v : String}

/-! ## The search -/

lemma stringOf?_of_revisits (hc : Within root c) (h : Revisits c) : stringOf? c = pure none := by
  rw [stringOf?, h.follow_eq hc]

lemma stringOf?_of_string (hroot : root.IsPlaced) (hc : Within root c) (h : EndsAt c d)
    (hv : d.stringValue? = some v) : stringOf? c = pure (some v) := by
  rw [stringOf?, h.follow_eq hroot hc, Cursor.ending, hv]

lemma stringOf?_of_other (hroot : root.IsPlaced) (hc : Within root c) (h : EndsAt c d)
    (hkind : d.kind ≠ .identifier) (hv : d.stringValue? = none) : stringOf? c = pure none := by
  rw [stringOf?, h.follow_eq hroot hc, Cursor.ending, hv]
  simp only [if_neg hkind]

lemma stringOf?_of_name (hroot : root.IsPlaced) (hc : Within root c) (h : EndsAt c d)
    (hkind : d.kind = .identifier) :
    d.initializer? = none ∧ stringOf? c = do return (← typeOf d).stringValue? := by
  constructor
  · have hend := h.2
    rwa [Cursor.next?, if_pos hkind, Option.map_eq_none_iff] at hend
  · rw [stringOf?, h.follow_eq hroot hc, Cursor.ending, Cursor.stringValue?_of_identifier hkind]
    simp only [if_pos hkind]

/-! ## Constants -/

/-- A name refers to a constant without an annotation that has an initial value. -/
def NamesConstant (c value : Cursor) : Prop :=
  c.kind = .identifier ∧ ∃ d ∈ c.declaration?, d.kind = .variableDeclarator ∧
    d.declarationKeyword = "const" ∧ d.child? .type = none ∧ d.child? .value = some value

instance (c value : Cursor) : Decidable (NamesConstant c value) :=
  inferInstanceAs (Decidable (_ ∧ ∃ d ∈ c.declaration?, _))

/-- An expression is a string, in parentheses or not, or the name of a constant without an annotation
whose initial value is such an expression.  The name `undefined` has a type of its own. -/
inductive IsConstant : Cursor → String → Prop
  | literal {c : Cursor} {v : String} : c.stringValue? = some v → IsConstant c v
  | parenthesized {c d : Cursor} {v : String} :
    c.kind = .parenthesized → c.named.head? = some d → IsConstant d v → IsConstant c v
  | name {c d : Cursor} {v : String} :
    NamesConstant c d → c.text ≠ "undefined" → IsConstant d v → IsConstant c v

/-- What an expression that is a constant but no string takes its type from. -/
def base? (c : Cursor) : Option Cursor :=
  match c.kind with
  | .parenthesized => c.named.head?
  | .identifier => c.declaration?.bind (·.child? .value)
  | _ => none

/-- One expression takes its type from another. -/
def RestsOn (c d : Cursor) : Prop := base? c = some d

lemma rightUnique_restsOn : Relator.RightUnique RestsOn := fun _ _ _ h h' =>
  Option.some.inj (h.symm.trans h')

lemma RestsOn.isStation (h : RestsOn c d) : c.IsStation := by
  unfold RestsOn base? at h
  split at h
  · exact .inr ‹_›
  · exact .inl ‹_›
  · cases h

lemma NamesConstant.restsOn (h : NamesConstant c d) : RestsOn c d := by
  obtain ⟨hkind, declarator, hdeclarator, -, -, -, hvalue⟩ := h
  rw [Option.mem_def] at hdeclarator
  simp only [RestsOn, base?, hkind, hdeclarator, Option.bind_some, hvalue]

lemma restsOn_of_parenthesized (hkind : c.kind = .parenthesized) (hd : c.named.head? = some d) :
    RestsOn c d := by
  simp only [RestsOn, base?, hkind, hd]

/-- The chain of variables goes on from the name of a constant to its initial value. -/
lemma NamesConstant.leads (h : NamesConstant c d) : c.unwrap = c ∧ Cursor.Leads c d.unwrap := by
  obtain ⟨hkind, declarator, hdeclarator, hvariable, -, -, hvalue⟩ := h
  rw [Option.mem_def] at hdeclarator
  have hunwrap : c.unwrap = c := Cursor.unwrap_of_kind (by rw [hkind]; rfl)
  have hinitializer : c.initializer? = some d := by
    simp [Cursor.initializer?, hunwrap, hkind, hdeclarator, hvariable, hvalue]
  refine ⟨hunwrap, ?_⟩
  rw [Cursor.Leads, Cursor.next?, if_pos hkind, hinitializer, Option.map_some]

lemma NamesConstant.endsAt {e : Cursor} (h : NamesConstant c d) (hd : EndsAt d e) : EndsAt c e := by
  obtain ⟨hunwrap, hleads⟩ := h.leads
  refine ⟨?_, hd.2⟩
  rw [hunwrap]
  exact .head hleads hd.1

lemma NamesConstant.within (h : NamesConstant c d) (hc : Within root c) : Within root d := by
  obtain ⟨-, declarator, hdeclarator, -, -, -, hvalue⟩ := h
  exact (hc.declaration hdeclarator).child hvalue

lemma kind_of_stringValue? (h : c.stringValue? = some v) :
    c.kind = .string ∨ c.kind = .templateString := by
  unfold Cursor.stringValue? at h
  split at h
  · exact .inl ‹_›
  · exact .inr ‹_›
  · cases h

/-- A constant does not rest on itself. -/
lemma IsConstant.not_transGen (h : IsConstant c v) : ¬TransGen RestsOn c c := by
  induction h with
  | @literal c v hv =>
    intro hcycle
    obtain ⟨d, hd, -⟩ := TransGen.head'_iff.1 hcycle
    rcases kind_of_stringValue? hv with hkind | hkind <;>
      rcases hd.isStation with hkind' | hkind' <;> simp [hkind] at hkind'
  | parenthesized hkind hd _ ih =>
    exact fun hcycle =>
      ih (Source.transGen_of_step rightUnique_restsOn (restsOn_of_parenthesized hkind hd) hcycle)
  | name hnames _ _ ih =>
    exact fun hcycle => ih (Source.transGen_of_step rightUnique_restsOn hnames.restsOn hcycle)

/-- The chain of a constant ends at the string. -/
lemma IsConstant.exists_endsAt (h : IsConstant c v) :
    ∃ d, EndsAt c d ∧ d.stringValue? = some v := by
  induction h with
  | @literal c v hv =>
    have hkind := kind_of_stringValue? hv
    have hunwrap : c.unwrap = c := Cursor.unwrap_of_kind (by
      rcases hkind with hkind | hkind <;> rw [hkind] <;> rfl)
    have hend : c.next? = none := by
      rw [Cursor.next?, if_neg (by rcases hkind with hkind | hkind <;> simp [hkind])]
    exact ⟨c, ⟨by rw [hunwrap], hend⟩, hv⟩
  | @parenthesized c d v hkind hd _ ih =>
    obtain ⟨e, ⟨hreach, hend⟩, hv⟩ := ih
    have hwrapped : c.wrapped? = some d := by
      rw [Cursor.wrapped?, hkind]
      exact hd
    exact ⟨e, ⟨Cursor.unwrap_of_wrapped? hwrapped ▸ hreach, hend⟩, hv⟩
  | name hnames _ _ ih =>
    obtain ⟨e, he, hv⟩ := ih
    exact ⟨e, hnames.endsAt he, hv⟩

/-! ## The types of constants -/

/-- An expression that is not being worked out has the type that its form gives. -/
lemma gives_typeOf {x : Context} {s : Store} {out : Outcome Ty} (hnew : c.key ∉ x.resolving)
    (h : Gives (fun n => expressionType (answer n) c) (x.inExpression c) s out) :
    Gives (fun n => answer n _ (.typeOf c)) x s out := by
  refine Gives.answer (Gives.bind_read ?_ fun _ _ => rfl)
  have hopen : x.resolving.contains c.key = false := by simpa using hnew
  simp only [hopen, Bool.false_eq_true, if_false]
  exact h.changed fun _ => rfl

lemma IsConstant.key_notMem (hroot : root.IsPlaced) (h : IsConstant c v) (hc : Within root c)
    {keys : List Cursor.Key} (hkeys : KeysBefore root RestsOn c keys) : c.key ∉ keys :=
  hkeys.notMem hroot (fun _ _ hrests => hrests.isStation) hc h.not_transGen

/-- **A constant has the type of its string**, whatever was asked before: what is being worked out are
expressions that rest on it. -/
lemma IsConstant.gives (hroot : root.IsPlaced) (h : IsConstant c v) {x : Context} (s : Store)
    (hc : Within root c) (hx : KeysBefore root RestsOn c x.resolving) :
    Gives (fun n => answer n _ (.typeOf c)) x s (.ok (.literal (.string v)), s) := by
  induction h generalizing x with
  | @literal c v hv =>
    refine gives_typeOf ((IsConstant.literal hv).key_notMem hroot hc hx) (Gives.of_exec fun n e => ?_)
    rcases kind_of_stringValue? hv with hkind | hkind <;>
      simp only [expressionType, hkind, hv, Option.map_some, Option.getD_some, exec_pure]
  | @parenthesized c d v hkind hd hconstant ih =>
    have hinner := ih (x := x.inExpression c) (hc.named (List.mem_of_mem_head? hd))
      (hx.cons hc (restsOn_of_parenthesized hkind hd))
    refine gives_typeOf ((IsConstant.parenthesized hkind hd hconstant).key_notMem hroot hc hx)
      (hinner.congr fun n e => ?_)
    simp only [expressionType, hkind, typeOf?, hd]
  | @name c d v hnames hdefined hconstant ih =>
    have hinner := ih (x := x.inExpression c) (hnames.within hc) (hx.cons hc hnames.restsOn)
    refine gives_typeOf ((IsConstant.name hnames hdefined hconstant).key_notMem hroot hc hx)
      ((hinner.bind (gives_pure _)).congr fun n f => ?_)
    obtain ⟨hkind, declarator, hdeclarator, hvariable, hconst, htype, hvalue⟩ := hnames
    rw [Option.mem_def] at hdeclarator
    simp only [expressionType, hkind, nameType, hdeclarator, hvariable, htype, hvalue, hconst,
      beq_iff_eq, hdefined, if_false, if_true]

/-- **Strings behind names.**  The search comes to an end in every tree.  The chain of variables from an
expression ends at one node, or comes back to a node that it passed, and then there is no string and
inference is not asked.  Let the nodes of the tree be placed like the pieces of a text.  If the chain ends
at a string, this is the answer; if it ends at an expression that is neither a string nor a name, there is
none, and inference is not asked.  It is asked if the chain ends at a name without an initial value, for
the type of this name.  For a constant the answer is its string, and this is also the type that inference
gives, whatever was asked before. -/
theorem strings_of_chains (hc : Within root c) :
    (∀ out, Follows [] c.unwrap out ↔ out = c.follow) ∧
    (Revisits c ∧ (¬∃ d, EndsAt c d) ∨ ¬Revisits c ∧ ∃! d, EndsAt c d) ∧
    (Revisits c → stringOf? c = pure none) ∧
    (root.IsPlaced →
      (∀ d, EndsAt c d →
        (∀ v, d.stringValue? = some v → stringOf? c = pure (some v)) ∧
        (d.stringValue? = none → d.kind ≠ .identifier → stringOf? c = pure none) ∧
        (d.kind = .identifier →
          d.initializer? = none ∧ stringOf? c = do return (← typeOf d).stringValue?)) ∧
      ∀ v, IsConstant c v → stringOf? c = pure (some v) ∧
        ∀ s, ∀ᶠ n in atTop,
          runs root s (do return (← typeOf c).stringValue?) n = (.ok (some v), s)) := by
  have hfollows := Cursor.follows_follow hc
  refine ⟨fun out => ⟨fun h => h.unique hfollows, fun h => h ▸ hfollows⟩, ?_,
    stringOf?_of_revisits hc, fun hroot => ⟨fun d hd => ⟨fun v hv => ?_, fun hv hkind => ?_, ?_⟩,
    fun v hv => ⟨?_, fun s => ?_⟩⟩⟩
  · rcases hc.ends_or_revisits with ⟨d, hd⟩ | hrevisits
    · exact .inr ⟨hd.not_revisits, d, hd, fun e he => he.unique hd⟩
    · exact .inl ⟨hrevisits, fun ⟨d, hd⟩ => hd.not_revisits hrevisits⟩
  · exact stringOf?_of_string hroot hc hd hv
  · exact stringOf?_of_other hroot hc hd hkind hv
  · exact stringOf?_of_name hroot hc hd
  · obtain ⟨d, hd, hstring⟩ := hv.exists_endsAt
    exact stringOf?_of_string hroot hc hd hstring
  · have hgives := hv.gives hroot (x := Context.ofFile 0 (.ofRoot root)) s hc
      Source.keysBefore_nil
    filter_upwards [hgives] with n hn
    exact exec_bind_ok (hn n)

/-- A name of a constant whose value is the name of another, and that is a string in parentheses. -/
def constantsText : String := "const a = ('x')\nconst b = a\nf(b)\n"

/-- The name stands for the string, when it is looked up and when its type is inferred. -/
theorem strings_of_constants : ∃ program c, Source.parse .plain constantsText = some program ∧
    Within program c ∧ program.IsPlaced ∧ c.text = "b" ∧ stringOf? c = pure (some "x") ∧
    ∀ s, ∀ᶠ n in atTop, runs program s (do return (← typeOf c).stringValue?) n = (.ok (some "x"), s) := by
  obtain ⟨program, hparse, hplaced, htext, hchain⟩ : ∃ program,
      Source.parse .plain constantsText = some program ∧ program.IsPlaced ∧
      (program.nth 21).text = "b" ∧ ∃ d ∈ (program.nth 21).initializer?,
        NamesConstant (program.nth 21) d ∧ d.text ≠ "undefined" ∧ ∃ e ∈ d.initializer?,
          NamesConstant d e ∧ e.kind = .parenthesized ∧ ∃ f ∈ e.named.head?,
            f.stringValue? = some "x" :=
    exists_program (by decide +kernel)
  obtain ⟨d, -, hd, hdefined, e, -, he, hkind, f, hf, hvalue⟩ := hchain
  have hconstant : IsConstant (program.nth 21) "x" :=
    .name hd (by rw [htext]; decide) (.name he hdefined (.parenthesized hkind hf (.literal hvalue)))
  have hc := Source.within_nth program 21
  obtain ⟨hstring, htype⟩ := ((strings_of_chains hc).2.2.2 hplaced).2 "x" hconstant
  exact ⟨program, program.nth 21, hparse, hc, hplaced, htext, hstring, htype⟩

/-- **The name `undefined` is read in two ways.**  The search follows it to the initial value of its
constant, and inference gives it a type that is no string. -/
theorem two_answers_of_undefined : ∃ program c value,
    Source.parse .plain "const undefined = 'a'\n" = some program ∧ Within program c ∧
    program.IsPlaced ∧ NamesConstant c value ∧ value.stringValue? = some "a" ∧
    stringOf? c = pure (some "a") ∧
    ∀ s, ∀ᶠ n in atTop, runs program s (do return (← typeOf c).stringValue?) n = (.ok none, s) := by
  obtain ⟨program, hparse, hplaced, htext, value, -, hnames, hvalue⟩ : ∃ program,
      Source.parse .plain "const undefined = 'a'\n" = some program ∧ program.IsPlaced ∧
      (program.nth 4).text = "undefined" ∧ ∃ value ∈ (program.nth 4).initializer?,
        NamesConstant (program.nth 4) value ∧ value.stringValue? = some "a" :=
    exists_program (by decide +kernel)
  have hc := Source.within_nth program 4
  refine ⟨program, program.nth 4, value, hparse, hc, hplaced, hnames, hvalue, ?_, fun s => ?_⟩
  · obtain ⟨e, he, hstring⟩ := (IsConstant.literal hvalue).exists_endsAt
    exact stringOf?_of_string hplaced hc (hnames.endsAt he) hstring
  · have hgives : Gives (fun n => answer n _ (.typeOf (program.nth 4)))
        (Context.ofFile 0 (.ofRoot program)) s (.ok .undefined, s) := by
      refine gives_typeOf (by simp [Context.ofFile, Context.ofRoot]) (Gives.of_exec fun n e => ?_)
      simp only [expressionType, hnames.1, nameType, htext, beq_self_eq_true, if_true, exec_pure]
    filter_upwards [hgives] with n hn
    exact exec_bind_ok (hn n)

end RouteScribe.Route
