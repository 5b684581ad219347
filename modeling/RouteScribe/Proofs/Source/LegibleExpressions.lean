import Mathlib
import RouteScribe.Proofs.Source.Legible
import RouteScribe.Source.MarkupGrammar

/-!
# Readers of expressions and markup give legible trees

The readers for expressions, each from those that it calls (`Grammar.legible_operand`,
`Grammar.legible_expression`), and the readers for markup, which are a kind of operand.  Operators
that wait for their right side hold nodes too, and so does what follows the types given to an
operand: they are legible as the nodes in them are.
-/

set_option mvcgen.warning false

namespace RouteScribe.Source.Grammar

open Std.Do Read

/-! ## Operators that wait -/

section

instance : HoldsNodes Pending where
  nodes
    | .unary op | .update op | .await op => [op]
    | .assertion types => [types]
    | .binary left op _ => [left, op]

instance : HoldsNodes GenericTail where
  nodes
    | .call types args | .template types args => [types, args]
    | .alone types => [types]

variable {x y : Node} {level : Nat}

@[simp] lemma Pending.legible_unary : Legible (Pending.unary x) ↔ Legible x := Iff.rfl

@[simp] lemma Pending.legible_update : Legible (Pending.update x) ↔ Legible x := Iff.rfl

@[simp] lemma Pending.legible_await : Legible (Pending.await x) ↔ Legible x := Iff.rfl

@[simp] lemma Pending.legible_assertion : Legible (Pending.assertion x) ↔ Legible x := Iff.rfl

@[simp] lemma Pending.legible_binary :
    Legible (Pending.binary x y level) ↔ Legible x ∧ Legible y := by
  simp [Legible, HoldsNodes.nodes]

@[simp] lemma GenericTail.legible_call :
    Legible (GenericTail.call x y) ↔ Legible x ∧ Legible y := by
  simp [Legible, HoldsNodes.nodes]

@[simp] lemma GenericTail.legible_template :
    Legible (GenericTail.template x y) ↔ Legible x ∧ Legible y := by
  simp [Legible, HoldsNodes.nodes]

@[simp] lemma GenericTail.legible_alone : Legible (GenericTail.alone x) ↔ Legible x := Iff.rfl

/-- The arguments behind an operand are closed. -/
@[simp] def GenericTail.ClosedIn (cs : Array Char) : GenericTail → Prop
  | .call _ args | .template _ args => ClosedAt cs args.stop
  | .alone _ => True

end

/-- The operators up to the first that fails a test, and those from there on. -/
lemma legible_split {waiting : List Pending} (h : Legible waiting) (test : Pending → Bool) :
    Legible (waiting.takeWhile test) ∧ Legible (waiting.dropWhile test) := by
  rwa [← legible_append, List.takeWhile_append_dropWhile]

@[spec] lemma legible_close {x : Node} {op : Pending} (hx : Source.Legible x)
    (hop : Source.Legible op) : (op.close x).Legible := by
  cases op
  all_goals mvcgen -trivial [Pending.close] with simp_all

@[spec] lemma legible_closeAll {waiting : List Pending} {x : Node}
    (hwaiting : Source.Legible waiting) (hx : Source.Legible x) :
    (closeAll waiting x).Legible := by
  mvcgen -trivial [closeAll]
  case inv1 => exact ⇓? ⟨_, y⟩ => ⌜Source.Legible y⌝
  all_goals simp_all

@[spec] lemma legible_closeWhile {waiting : List Pending} {x : Node} (test : Pending → Bool)
    (hwaiting : Source.Legible waiting) (hx : Source.Legible x) :
    (closeWhile test waiting x).Legible := by
  obtain ⟨htaken, hleft⟩ := legible_split hwaiting test
  mvcgen -trivial [closeWhile] with simp_all

/-! ## Literals and names -/

@[spec] lemma legible_regexLiteral : regexLiteral.Legible := by
  mvcgen -trivial [regexLiteral] with simp +zetaDelta +contextual [*]

@[spec] lemma legible_nextOperator : nextOperator.Legible := by
  mvcgen -trivial [nextOperator] with simp +zetaDelta +contextual [*]

@[spec] lemma legible_questionMark : questionMark.Legible := by
  mvcgen -trivial [questionMark] with simp +zetaDelta +contextual [*]

@[spec] lemma legible_typeLikeOperand : ⦃⌜True⌝⦄ typeLikeOperand ⦃⇓? _ => ⌜True⌝⦄ := triple_true _

@[spec] lemma legible_followsBoth (bracket : Option Char) :
    ⦃⌜True⌝⦄ followsBoth bracket ⦃⇓? _ => ⌜True⌝⦄ := triple_true _

@[spec] lemma legible_refuseTypes (self : Rules) (n : Nat) (bracket : Option Char) :
    ⦃⌜True⌝⦄ refuseTypes self n bracket ⦃⇓? _ => ⌜True⌝⦄ := triple_true _

section

variable {self : Rules} (hself : ∀ r, (self r).LegibleAs r)

include hself

/-! ## Literals with parts -/

@[spec] lemma legible_spread : (spread self).Legible := by
  mvcgen -trivial [spread, hself] with simp +zetaDelta +contextual [*]

@[spec] lemma legible_methodFront (words : List String) : (methodFront self words).Legible := by
  mvcgen -trivial [methodFront, hself] with simp +zetaDelta +contextual [*]

@[spec] lemma legible_objectMember : (objectMember self).Legible := by
  mvcgen -trivial [objectMember, hself] with simp_all +zetaDelta

@[spec] lemma legible_object : (object self).Legible := by
  mvcgen -trivial [object, hself] with simp +zetaDelta +contextual [*]

@[spec] lemma legible_array : (array self).Legible := by
  mvcgen -trivial [array, hself] with simp +zetaDelta +contextual [*]

@[spec] lemma closing_arguments : (arguments self).Closing := by
  mvcgen -trivial [arguments, make, slice, hself, -legible_make, -legible_slice] with
    simp +zetaDelta +contextual [*]

@[spec] lemma closing_templateString : (templateString self).Closing := by
  mvcgen -trivial [templateString, hself] with simp +zetaDelta +contextual [*]

@[spec] lemma legible_parenthesized : (parenthesized self).Legible := by
  mvcgen -trivial [parenthesized, hself] with simp +zetaDelta +contextual [*]

/-! ## Functions and classes -/

@[spec] lemma legible_functionExpression : (functionExpression self).Legible := by
  mvcgen -trivial [functionExpression, hself] with simp +zetaDelta +contextual [*]

@[spec] lemma legible_arrowHead : (arrowHead self).Legible := by
  mvcgen -trivial [arrowHead, hself] with simp +zetaDelta +contextual [*]

@[spec] lemma legible_blockOrObject : (blockOrObject self).Legible := by
  mvcgen -trivial [blockOrObject, hself] with simp +contextual

@[spec] lemma legible_arrowFunction {head : List Node} (hhead : Source.Legible head) :
    (arrowFunction self head).Legible := by
  mvcgen -trivial [arrowFunction, hself] with simp +zetaDelta +contextual [*]

@[spec] lemma legible_classHeritage : (classHeritage self).Legible := by
  mvcgen -trivial [classHeritage, hself] with simp +zetaDelta +contextual [*]

@[spec] lemma legible_classTail : (classTail self).Legible := by
  mvcgen -trivial [classTail, hself] with simp +zetaDelta +contextual [*]

@[spec] lemma legible_classExpression : (classExpression self).Legible := by
  mvcgen -trivial [classExpression, hself] with simp +zetaDelta +contextual [*]

@[spec] lemma legible_moduleTail : (moduleTail self).Legible := by
  mvcgen -trivial [moduleTail, hself]
  case inv1 => exact ⇓? ⟨_, path⟩ => ⌜Source.Legible path⌝
  all_goals simp_all +zetaDelta

@[spec] lemma legible_internalModule : (internalModule self).Legible := by
  mvcgen -trivial [internalModule, hself] with simp +zetaDelta +contextual [*]

/-! ## Operands -/

@[spec] lemma legible_memberStep {x : Node} (hx : Source.Legible x) :
    (memberStep self x).Legible := by
  mvcgen -trivial [memberStep, hself] with simp +zetaDelta +contextual [*]

@[spec] lemma legible_elementStep {x : Node} {chain : List Node} (hx : Source.Legible x)
    (hchain : Source.Legible chain) : (elementStep self x chain).Legible := by
  mvcgen -trivial [elementStep, hself] with simp +zetaDelta +contextual [*]

@[spec] lemma legible_optionalStep {x : Node} (hx : Source.Legible x) :
    (optionalStep self x).Legible := by
  mvcgen -trivial [optionalStep, as, hself, -legible_as] with simp +zetaDelta +contextual [*]

@[spec] lemma legible_chainStep (calls : Bool) {x : Node} (hx : Source.Legible x) :
    (chainStep self calls x).Legible := by
  mvcgen -trivial [chainStep, as, hself, -legible_as] with simp +zetaDelta +contextual [*]

@[spec] lemma legible_chain (calls : Bool) (n : Nat) {x : Node} (hx : Source.Legible x) :
    (chain self calls n x).Legible := by
  induction n generalizing x with
  | zero =>
    mvcgen -trivial [chain]
    all_goals simp [hx]
  | succ n ih =>
    mvcgen -trivial [chain, ih, hself]
    all_goals simp +contextual [*]

@[spec] lemma legible_chained (calls : Bool) {x : Node} (hx : Source.Legible x) :
    (chained self calls x).Legible := by
  mvcgen -trivial [chained, hself] with simp +zetaDelta +contextual [*]

@[spec] lemma legible_importOperand : (importOperand self).Legible := by
  mvcgen -trivial [importOperand, as, hself, -legible_as] with simp +zetaDelta +contextual [*]

@[spec] lemma legible_wordOperand : (wordOperand self).Legible := by
  mvcgen -trivial [wordOperand, hself] with simp +zetaDelta +contextual [*]

@[spec] lemma legible_bracketOperand (literal : Rule) : (bracketOperand self literal).Legible := by
  mvcgen -trivial [bracketOperand, hself] with simp +zetaDelta +contextual [*]

@[spec] lemma legible_plainOperand : (plainOperand self).Legible := by
  mvcgen -trivial [plainOperand, hself] with simp +zetaDelta +contextual [*]

@[spec] lemma legible_newExpression : (newExpression self).Legible := by
  unfold newExpression
  -- Which characters may follow the types plays no part.
  generalize "(),;:.?]=&|!\x7d\x00".toList = closers
  mvcgen -trivial [hself] with simp +zetaDelta +contextual [*]

@[spec] lemma legible_operand : (operand self).Legible := by
  mvcgen -trivial [operand, hself] with simp +zetaDelta +contextual [*]

/-! ## Patterns -/

@[spec] lemma legible_patternOrPreset {kind : Kind} {target : Read Node} (hkind : kind.Plain)
    (htarget : target.Legible) : (patternOrPreset self kind target).Legible := by
  mvcgen -trivial [patternOrPreset, hself, htarget] with simp +zetaDelta +contextual [*]

@[spec] lemma legible_marked (n : Nat) {x : Node} (hx : Source.Legible x) :
    (marked self n x).Legible := by
  induction n generalizing x with
  | zero =>
    mvcgen -trivial [marked]
    all_goals simp [hx]
  | succ n ih =>
    mvcgen -trivial [marked, ih, hself]
    all_goals simp +contextual [*]

@[spec] lemma legible_place : (place self).Legible := by
  mvcgen -trivial [place, hself] with simp +zetaDelta +contextual [*]

@[spec] lemma legible_patternTarget : (patternTarget self).Legible := by
  unfold patternTarget
  generalize ",]\x7d=".toList = closers
  mvcgen -trivial [hself] with simp +zetaDelta +contextual [*]

@[spec] lemma legible_objectPatternPart : (objectPatternPart self).Legible := by
  mvcgen -trivial [objectPatternPart, hself] with simp +zetaDelta +contextual [*]

@[spec] lemma legible_pattern : (pattern self).Legible := by
  mvcgen -trivial [pattern, hself] with simp +zetaDelta +contextual [*]

/-! ## Operators -/

lemma legible_genericTail :
    ⦃⌜True⌝⦄ genericTail self
    ⦃⇓? tail => fun s => ⌜Source.Legible tail ∧ tail.ClosedIn s.chars⌝⦄ := by
  unfold genericTail
  generalize ")],;:.?=&|\x7d\x00".toList = closers
  mvcgen -trivial [as, hself, -legible_as] with simp +zetaDelta +contextual [*]

@[spec 1100] lemma legible_optionalTail :
    ⦃⌜True⌝⦄ (optional (genericTail self) : Read (Option GenericTail))
    ⦃⇓? o => fun s => ⌜∀ tail, o = some tail → Source.Legible tail ∧ tail.ClosedIn s.chars⌝⦄ :=
  triple_optional (legible_genericTail hself)

@[spec] lemma legible_frontOperator : (frontOperator self).Legible := by
  mvcgen -trivial [frontOperator, hself] with simp +zetaDelta +contextual [*]

@[spec] lemma legible_assignmentTarget {x : Node} (hx : Source.Legible x) :
    (assignmentTarget self x).Legible := by
  mvcgen -trivial [assignmentTarget, hself] with simp +zetaDelta +contextual [*]

@[spec] lemma legible_applyOperator {waiting : List Pending} {x t : Node}
    (hwaiting : Source.Legible waiting) (hx : Source.Legible x) (ht : Source.Legible t) :
    (applyOperator self waiting x t).Legible := by
  mvcgen -trivial [applyOperator, hself] with simp_all +zetaDelta

@[spec] lemma legible_applyGeneric {waiting : List Pending} {x : Node} {tail : GenericTail}
    (hwaiting : Source.Legible waiting) (hx : Source.Legible x) (htail : Source.Legible tail) :
    ⦃fun s => ⌜tail.ClosedIn s.chars⌝⦄ applyGeneric self waiting x tail
    ⦃⇓? r => ⌜Source.Legible r⌝⦄ := by
  cases tail
  case call types args =>
    -- The arguments stay closed while the operators in front of the call are closed.
    have hclose := triple_frame (legible_closeWhile Pending.yieldsToCall hwaiting hx)
      fun s => ClosedAt s.chars args.stop
    simp only [GenericTail.legible_call] at htail
    mvcgen -trivial [applyGeneric, hself, hclose, -legible_closeWhile] with simp_all
  case template types args =>
    simp only [GenericTail.legible_template] at htail
    mvcgen -trivial [applyGeneric, hself] with simp_all
  case alone types =>
    simp only [GenericTail.legible_alone] at htail
    mvcgen -trivial [applyGeneric, hself] with simp_all

@[spec] lemma legible_operandsFrom (n : Nat) {waiting : List Pending} {last : Option Node}
    (hwaiting : Source.Legible waiting) (hlast : Source.Legible last) :
    (operandsFrom self n waiting last).Legible := by
  induction n generalizing waiting last with
  | zero =>
    mvcgen -trivial [operandsFrom]
    simp
  | succ n ih =>
    cases last with
    | none =>
      mvcgen -trivial [operandsFrom, ih, hself]
      all_goals simp +contextual [*]
    | some x =>
      mvcgen -trivial [operandsFrom, ih, hself]
      all_goals simp_all

@[spec] lemma legible_operands : (operands self).Legible := by
  mvcgen -trivial [operands, hself] with simp +zetaDelta +contextual [*]

@[spec] lemma legible_expression : (expression self).Legible := by
  mvcgen -trivial [expression, hself] with simp_all +zetaDelta

@[spec] lemma legible_expressions : (expressions self).Legible := by
  mvcgen -trivial [expressions, hself] with simp +zetaDelta +contextual [*]

end

/-! ## Markup -/

@[spec] lemma legible_markupWord {kind : Kind} (hkind : kind.Plain) :
    (markupWord kind).Legible := by
  mvcgen -trivial [markupWord] with simp +zetaDelta +contextual [*]

@[spec] lemma legible_markupName {kind : Kind} (hkind : kind.Plain) :
    (markupName kind).Legible := by
  mvcgen -trivial [markupName] with simp +zetaDelta +contextual [*]

@[spec] lemma legible_markupElementName : markupElementName.Legible := by
  mvcgen -trivial [markupElementName]
  case inv1 => exact ⇓? ⟨_, path⟩ => ⌜Source.Legible path⌝
  all_goals simp_all +zetaDelta

@[spec] lemma legible_markupString : markupString.Legible := by
  mvcgen -trivial [markupString] with simp +zetaDelta +contextual [*]

section

variable {self : Rules} (hself : ∀ r, (self r).LegibleAs r)

include hself

@[spec] lemma legible_markupExpression : (markupExpression self).Legible := by
  mvcgen -trivial [markupExpression, hself] with simp +zetaDelta +contextual [*]

@[spec] lemma legible_markupAttribute : (markupAttribute self).Legible := by
  mvcgen -trivial [markupAttribute, hself] with simp +zetaDelta +contextual [*]

@[spec] lemma legible_markupChild : (markupChild self).Legible := by
  mvcgen -trivial [markupChild, hself] with simp +zetaDelta +contextual [*]

@[spec] lemma legible_markup : (markup self).Legible := by
  mvcgen -trivial [markup, hself] with simp +zetaDelta +contextual [*]

end

end RouteScribe.Source.Grammar
