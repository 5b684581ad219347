import Mathlib
import RouteScribe.Proofs.Source.LegibleExpressions
import RouteScribe.Proofs.Source.Within
import RouteScribe.Source.Program

/-!
# Programs are legible

The readers for statements and declarations, and with them every rule of the grammar: a rule that
nests to a depth uses those that nest less deeply (`legible_rules`).  So in a tree that comes from a
text (`legible_of_parse`) all numbers can be read (`Within.exists_read`), and the text of every call
ends with a bracket or a template (`Within.closed_text`).
-/

set_option mvcgen.warning false

namespace RouteScribe.Source

namespace Grammar

open Std.Do Read

/-! ## Looking ahead -/

@[spec] lemma legible_namedFunctionAhead : ⦃⌜True⌝⦄ namedFunctionAhead ⦃⇓? _ => ⌜True⌝⦄ :=
  triple_true _

@[spec] lemma legible_namedClassAhead : ⦃⌜True⌝⦄ namedClassAhead ⦃⇓? _ => ⌜True⌝⦄ := triple_true _

@[spec] lemma legible_typeAliasAhead : ⦃⌜True⌝⦄ typeAliasAhead ⦃⇓? _ => ⌜True⌝⦄ := triple_true _

@[spec] lemma legible_moduleAhead (keyword : String) :
    ⦃⌜True⌝⦄ moduleAhead keyword ⦃⇓? _ => ⌜True⌝⦄ := triple_true _

/-! ## Imports and exports -/

@[spec] lemma legible_memberEnd (binary : Bool) : (memberEnd binary).Legible := by
  mvcgen -trivial [memberEnd] with simp +zetaDelta +contextual [*]

@[spec] lemma legible_importAlias : importAlias.Legible := by
  mvcgen -trivial [importAlias] with simp +zetaDelta +contextual [*]

@[spec] lemma legible_fromClause : fromClause.Legible := by
  mvcgen -trivial [fromClause] with simp +zetaDelta +contextual [*]

@[spec] lemma legible_moduleName : moduleName.Legible := by
  mvcgen -trivial [moduleName] with simp +zetaDelta +contextual [*]

@[spec] lemma legible_specifier {kind : Kind} (hkind : kind.Plain) :
    (specifier kind).Legible := by
  mvcgen -trivial [specifier] with simp +zetaDelta +contextual [*]

@[spec] lemma legible_specifiers {kind item : Kind} (hkind : kind.Plain)
    (hitem : item.Plain) : (specifiers kind item).Legible := by
  mvcgen -trivial [specifiers] with simp +zetaDelta +contextual [*]

@[spec] lemma legible_importClause : importClause.Legible := by
  mvcgen -trivial [importClause] with simp +zetaDelta +contextual [*]

@[spec] lemma legible_jumpStatement (keyword : String) {kind : Kind} (hkind : kind.Plain) :
    (jumpStatement keyword kind).Legible := by
  mvcgen -trivial [jumpStatement] with simp +zetaDelta +contextual [*]

section

variable {self : Rules} (hself : ∀ r, (self r).LegibleAs r)

include hself

@[spec] lemma legible_importAttribute : (importAttribute self).Legible := by
  mvcgen -trivial [importAttribute, hself] with simp +zetaDelta +contextual [*]

@[spec] lemma legible_importStatement : (importStatement self).Legible := by
  mvcgen -trivial [importStatement, hself] with simp +zetaDelta +contextual [*]

/-! ## Variables, functions and classes -/

@[spec] lemma legible_variableDeclarator : (variableDeclarator self).Legible := by
  mvcgen -trivial [variableDeclarator, hself] with simp +zetaDelta +contextual [*]

@[spec] lemma legible_declarators {finish : Bool → Read (List Node)}
    (hfinish : ∀ valued, (finish valued).Legible) : (declarators self finish).Legible := by
  mvcgen -trivial [declarators, hself, hfinish] with simp +zetaDelta +contextual [*]

@[spec] lemma legible_variableDeclaration {finish : Bool → Read (List Node)}
    (hfinish : ∀ valued, (finish valued).Legible) : (variableDeclaration self finish).Legible := by
  mvcgen -trivial [variableDeclaration, hself, hfinish] with simp +zetaDelta +contextual [*]

@[spec] lemma legible_functionDeclaration : (functionDeclaration self).Legible := by
  mvcgen -trivial [functionDeclaration, hself] with simp +zetaDelta +contextual [*]

@[spec] lemma legible_classDeclaration : (classDeclaration self).Legible := by
  mvcgen -trivial [classDeclaration, hself] with simp +zetaDelta +contextual [*]

@[spec] lemma legible_namedMember : (namedMember self).Legible := by
  mvcgen -trivial [namedMember, hself] with simp +zetaDelta +contextual [*]

@[spec] lemma legible_classMember : (classMember self).Legible := by
  mvcgen -trivial [classMember, hself] with simp +zetaDelta +contextual [*]

@[spec] lemma legible_classBody : (classBody self).Legible := by
  mvcgen -trivial [classBody, hself] with simp +zetaDelta +contextual [*]

@[spec] lemma legible_decorator : (decorator self).Legible := by
  mvcgen -trivial [decorator, as, hself, -legible_as] with simp +zetaDelta +contextual [*]

/-! ## Declarations -/

@[spec] lemma legible_typeAlias : (typeAlias self).Legible := by
  mvcgen -trivial [typeAlias, hself] with simp +zetaDelta +contextual [*]

@[spec] lemma legible_interfaceDeclaration : (interfaceDeclaration self).Legible := by
  mvcgen -trivial [interfaceDeclaration, hself] with simp +zetaDelta +contextual [*]

@[spec] lemma legible_enumMember : (enumMember self).Legible := by
  mvcgen -trivial [enumMember, hself] with simp +zetaDelta +contextual [*]

@[spec] lemma legible_enumDeclaration : (enumDeclaration self).Legible := by
  mvcgen -trivial [enumDeclaration, hself] with simp +zetaDelta +contextual [*]

@[spec] lemma legible_moduleDeclaration : (moduleDeclaration self).Legible := by
  mvcgen -trivial [moduleDeclaration, hself] with simp +zetaDelta +contextual [*]

@[spec] lemma legible_declaration : (declaration self).Legible := by
  mvcgen -trivial [declaration, hself] with simp +zetaDelta +contextual [*]

@[spec] lemma legible_ambientDeclaration : (ambientDeclaration self).Legible := by
  mvcgen -trivial [ambientDeclaration, hself] with simp +zetaDelta +contextual [*]

@[spec] lemma legible_defaultExport : (defaultExport self).Legible := by
  mvcgen -trivial [defaultExport, hself] with simp +zetaDelta +contextual [*]

@[spec] lemma legible_exportStatement : (exportStatement self).Legible := by
  mvcgen -trivial [exportStatement, hself] with simp +zetaDelta +contextual [*]

/-! ## Control -/

@[spec] lemma legible_block : (block self).Legible := by
  mvcgen -trivial [block, hself] with simp +zetaDelta +contextual [*]

@[spec] lemma legible_expressionStatement : (expressionStatement self).Legible := by
  mvcgen -trivial [expressionStatement, hself] with simp +zetaDelta +contextual [*]

@[spec] lemma legible_ifStatement : (ifStatement self).Legible := by
  mvcgen -trivial [ifStatement, hself] with simp +zetaDelta +contextual [*]

@[spec] lemma legible_forInHead : (forInHead self).Legible := by
  mvcgen -trivial [forInHead, hself] with simp +zetaDelta +contextual [*]

@[spec] lemma legible_forHead : (forHead self).Legible := by
  mvcgen -trivial [forHead, hself] with simp +zetaDelta +contextual [*]

@[spec] lemma legible_forStatement : (forStatement self).Legible := by
  mvcgen -trivial [forStatement, hself] with simp +zetaDelta +contextual [*]

@[spec] lemma legible_whileStatement : (whileStatement self).Legible := by
  mvcgen -trivial [whileStatement, hself] with simp +zetaDelta +contextual [*]

@[spec] lemma legible_doStatement : (doStatement self).Legible := by
  mvcgen -trivial [doStatement, hself] with simp +zetaDelta +contextual [*]

@[spec] lemma legible_switchCase : (switchCase self).Legible := by
  mvcgen -trivial [switchCase, hself] with simp +zetaDelta +contextual [*]

@[spec] lemma legible_switchStatement : (switchStatement self).Legible := by
  mvcgen -trivial [switchStatement, hself] with simp +zetaDelta +contextual [*]

@[spec] lemma legible_tryStatement : (tryStatement self).Legible := by
  mvcgen -trivial [tryStatement, hself] with simp +zetaDelta +contextual [*]

@[spec] lemma legible_returnStatement : (returnStatement self).Legible := by
  mvcgen -trivial [returnStatement, hself] with simp +zetaDelta +contextual [*]

@[spec] lemma legible_bracedStatement : (bracedStatement self).Legible := by
  mvcgen -trivial [bracedStatement, hself] with simp +contextual

lemma legible_keywordStatement? {w : String} {p : Read Node}
    (h : keywordStatement? self w = some p) : p.Legible := by
  unfold keywordStatement? at h
  split at h
  all_goals cases h
  all_goals mvcgen -trivial [hself] with simp +contextual [*]

@[spec] lemma legible_wordStatement (w : String) : (wordStatement self w).Legible := by
  mvcgen -trivial [wordStatement, hself]

@[spec] lemma legible_labeledStatement : (labeledStatement self).Legible := by
  mvcgen -trivial [labeledStatement, hself] with simp +zetaDelta +contextual [*]

@[spec] lemma legible_statement : (statement self).Legible := by
  mvcgen -trivial [statement, hself]
  case vc3 | vc4.post.success.isFalse.isFalse.isFalse.isTrue.post.success.h_1.isFalse =>
    exact fun s i => legible_keywordStatement? hself ‹_› s i trivial
  all_goals simp +contextual

end

end Grammar

/-! ## Whole programs -/

lemma legible_ruleBody {self : Rules} (hself : ∀ r, (self r).LegibleAs r) (r : Rule) :
    (ruleBody self r).LegibleAs r := by
  cases r
  all_goals mvcgen -trivial [ruleBody, hself] with simp +contextual

lemma legible_rules (n : Nat) (r : Rule) : (rules n r).LegibleAs r := by
  induction n generalizing r with
  | zero => exact Read.triple_iff_run.2 fun _ _ _ _ _ h => nomatch h
  | succ n ih => exact legible_ruleBody ih r

lemma legible_program {self : Rules} (hself : ∀ r, (self r).LegibleAs r) :
    (program self).Legible := by
  mvcgen -trivial [program, hself] with simp +zetaDelta +contextual [*]

/-- A tree that comes from a text is legible. -/
theorem legible_of_parse {dialect : Dialect} {text : String} {root : Node}
    (h : parse dialect text = some root) : root.Legible := by
  simp only [parse] at h
  split at h
  case isTrue => cases h
  case isFalse =>
    obtain ⟨⟨root, stop⟩, hprogram, rfl⟩ := Option.map_eq_some_iff.1 h
    exact legible_node.1 (Read.triple_iff.1 (legible_program (legible_rules _)) _ _ _ _ hprogram)

lemma Within.legible {root : Node} {c : Cursor} (hc : Within root c) (h : root.Legible) :
    c.node.Legible := by
  induction hc with
  | root => exact h
  | down _ hn ih =>
    obtain ⟨-, -, hchildren⟩ := ih
    exact hchildren _ hn

/-- A number in a legible tree can be read where it stands. -/
lemma Within.exists_read {root : Node} {c : Cursor} (hc : Within root c) (h : root.Legible)
    (hkind : c.kind = .number) : ∃ v, Numeral.read c.text = .ok v := by
  obtain ⟨hnumber, -, -⟩ := hc.legible h
  have hread := (hnumber hkind).exists_read
  rwa [String.ofList_toList] at hread

/-- The text of a call in a legible tree is closed. -/
lemma Within.closed_text {root : Node} {c : Cursor} (hc : Within root c) (h : root.Legible)
    (hkind : c.kind = .callExpression) : Closed c.text := by
  obtain ⟨-, hcall, -⟩ := hc.legible h
  exact hcall hkind

end RouteScribe.Source
