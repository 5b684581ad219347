import Mathlib
import RouteScribe.Proofs.Source.Numbers
import RouteScribe.Source.TypeGrammar

/-!
# Readers that give legible trees

A tree is legible when all its numbers are written like numbers, so that they can be read, and a bracket
or a template ends each of its calls.  The grammar makes a number in one place only, from a stretch of
text that the lexer takes for one, and a call only where it has just read the arguments; everywhere else
it puts nodes together that it has.
So whatever a reader gives is legible, if the rules that it refers to give legible trees.

The statements are triples without a precondition, one for each reader; a reader that refuses says
nothing (`Read.Legible`).  What is said of arguments refers to the text that is read, so the rules are
assumed to keep `Read.LegibleAs`.  This file has the readers that are not tied to a rule, and those for
types and parameters.
-/

set_option mvcgen.warning false

namespace RouteScribe.Source

open Std.Do

instance : Nonempty Setting := ⟨{ chars := #[], markup := false }⟩

/-! ## Closed texts and legible trees -/

/-- A text that is empty or that a closing bracket or a backquote ends. -/
def Closed (text : String) : Prop := ∀ c ∈ text.toList.getLast?, c = ')' ∨ c = '\x60'

/-- A closing bracket or a backquote stands in front of a position. -/
def ClosedAt (cs : Array Char) (stop : Nat) : Prop :=
  ∃ i, stop = i + 1 ∧ (charAt cs i = ')' ∨ charAt cs i = '\x60')

@[simp] lemma closedAt_succ {cs : Array Char} {i : Nat} :
    ClosedAt cs (i + 1) ↔ charAt cs i = ')' ∨ charAt cs i = '\x60' := by
  simp [ClosedAt]

/-- A place with a character that is not `NUL` is a place of the text. -/
lemma getElem?_of_charAt {cs : Array Char} {i : Nat} {c : Char} (h : charAt cs i = c)
    (hc : c ≠ '\x00') : cs[i]? = some c := by
  rw [charAt, Array.getD_eq_getD_getElem?] at h
  rcases hget : cs[i]? with - | d
  · rw [hget] at h
    exact absurd h.symm hc
  · rw [hget] at h
    exact congrArg some h

/-- What is cut out of a text is closed if it stops behind a bracket or a backquote. -/
lemma ClosedAt.closed {cs : Array Char} {stop : Nat} (h : ClosedAt cs stop) (start : Nat) :
    Closed (String.ofList (cs.extract start stop).toList) := by
  obtain ⟨i, rfl, hbracket⟩ := h
  have hi : cs[i]? = some (charAt cs i) := by
    refine getElem?_of_charAt rfl ?_
    rcases hbracket with h | h
    · simp [h]
    · simp [h]
  have hsize : i < cs.size := (Array.getElem?_eq_some_iff.1 hi).1
  intro c hlast
  rw [String.toList_ofList, Array.getLast?_toList, Array.back?_eq_getElem?, Array.getElem?_extract,
    Array.size_extract, Nat.min_eq_left hsize, Option.mem_def] at hlast
  split at hlast
  case isTrue hstart =>
    have hplace : start + (i + 1 - start - 1) = i := by omega
    rw [hplace, hi] at hlast
    cases hlast
    exact hbracket
  case isFalse => cases hlast

/-- All numbers of a tree are written like numbers, and the text of every call is closed. -/
inductive Node.Legible : Node → Prop
  | of {n : Node} : (n.kind = .number → Numeral.Written n.text.toList) →
    (n.kind = .callExpression → Closed n.text) → (∀ m ∈ n.children, m.Legible) → n.Legible

/-- Forms of which nothing is asked but that their parts are legible. -/
@[simp] abbrev Kind.Plain (kind : Kind) : Prop := kind ≠ .number ∧ kind ≠ .callExpression

/-- Values that hold nodes. -/
class HoldsNodes (α : Type) where
  nodes : α → List Node

/-- The nodes that a value holds are legible. -/
def Legible {α : Type} [HoldsNodes α] (a : α) : Prop := ∀ n ∈ HoldsNodes.nodes a, n.Legible

section

variable {α β : Type} [HoldsNodes α] [HoldsNodes β]

instance : HoldsNodes Node := ⟨fun n => [n]⟩

instance : HoldsNodes (List α) := ⟨fun l => l.flatMap HoldsNodes.nodes⟩

instance : HoldsNodes (Option α) := ⟨fun o => o.toList.flatMap HoldsNodes.nodes⟩

instance : HoldsNodes (α × β) := ⟨fun p => HoldsNodes.nodes p.1 ++ HoldsNodes.nodes p.2⟩

lemma legible_node {n : Node} : Legible n ↔ n.Legible := by
  simp [Legible, HoldsNodes.nodes]

@[simp] lemma legible_nil : Legible ([] : List α) := by simp [Legible, HoldsNodes.nodes]

@[simp] lemma legible_cons {a : α} {l : List α} : Legible (a :: l) ↔ Legible a ∧ Legible l := by
  simp only [Legible, HoldsNodes.nodes, List.flatMap_cons, List.mem_append]
  exact forall₂_or_left

@[simp] lemma legible_append {l l' : List α} : Legible (l ++ l') ↔ Legible l ∧ Legible l' := by
  simp only [Legible, HoldsNodes.nodes, List.flatMap_append, List.mem_append]
  exact forall₂_or_left

@[simp] lemma legible_flatten {l : List (List α)} : Legible l.flatten ↔ Legible l := by
  induction l with
  | nil => simp
  | cons a l ih => simp [ih]

@[simp] lemma legible_none : Legible (none : Option α) := by simp [Legible, HoldsNodes.nodes]

@[simp] lemma legible_some {a : α} : Legible (some a) ↔ Legible a := by
  simp [Legible, HoldsNodes.nodes]

@[simp] lemma legible_toList {o : Option α} : Legible o.toList ↔ Legible o := by
  cases o <;> simp

@[simp] lemma legible_prod {p : α × β} : Legible p ↔ Legible p.1 ∧ Legible p.2 := by
  simp only [Legible, HoldsNodes.nodes, List.mem_append]
  exact forall₂_or_left

lemma Legible.of_mem {l : List α} (h : Legible l) {a : α} (ha : a ∈ l) : Legible a :=
  fun n hn => h n (List.mem_flatMap.2 ⟨a, ha, hn⟩)

end

section

variable {n : Node}

@[simp] lemma Legible.children (h : Legible n) : Legible n.children := by
  obtain ⟨-, -, h⟩ := legible_node.1 h
  intro m hm
  obtain ⟨c, hc, hm⟩ := List.mem_flatMap.1 hm
  rw [List.mem_singleton.1 hm]
  exact h c hc

@[simp] lemma Node.stop_withRole (role : Role) : (n.withRole role).stop = n.stop := rfl

@[simp] lemma legible_withRole (role : Role) : Legible (n.withRole role) ↔ Legible n := by
  rw [legible_node, legible_node]
  constructor
  · rintro ⟨hnumber, hcall, hchildren⟩
    exact .of hnumber hcall hchildren
  · rintro ⟨hnumber, hcall, hchildren⟩
    exact .of hnumber hcall hchildren

@[simp] lemma getLast?_cons_concat {α : Type} (a b : α) (l : List α) :
    (a :: (l ++ [b])).getLast? = some b := by
  rw [← List.cons_append, List.getLast?_concat]

/-- A node that is no number and no call, around parts that are legible. -/
@[simp] lemma legible_of_kind {kind : Kind} {role : Role} {start stop : Nat} {text : String}
    {children : List Node} (hkind : kind.Plain) (h : Legible children) :
    Legible (⟨kind, role, start, stop, text, children⟩ : Node) := by
  refine legible_node.2 (.of (fun hnumber => absurd hnumber hkind.1)
    (fun hcall => absurd hcall hkind.2) fun m hm => ?_)
  exact legible_node.1 (h.of_mem hm)

@[simp] lemma legible_ite {p : Prop} [Decidable p] {m : Node} :
    Legible (if p then m else n) ↔ if p then Legible m else Legible n := by
  split <;> rfl

end

@[simp] lemma Kind.ite_eq {p : Prop} [Decidable p] {k l m : Kind} :
    (if p then k else l) = m ↔ if p then k = m else l = m := by
  split <;> rfl

/-! ## Readers -/

namespace Read

/-- What a reader gives is legible. -/
abbrev Legible {α : Type} [HoldsNodes α] (p : Read α) : Prop :=
  ⦃⌜True⌝⦄ p ⦃⇓? a => ⌜Source.Legible a⌝⦄

/-- What a reader gives is legible and closed. -/
abbrev Closing (p : Read Node) : Prop :=
  ⦃⌜True⌝⦄ p ⦃⇓? n => fun s => ⌜Source.Legible n ∧ ClosedAt s.chars n.stop⌝⦄

/-- What the reader of a rule gives is legible, and arguments are closed. -/
abbrev LegibleAs (rule : Rule) (p : Read Node) : Prop :=
  ⦃⌜True⌝⦄ p ⦃⇓? n => fun s => ⌜Source.Legible n ∧ (rule = .arguments → ClosedAt s.chars n.stop)⌝⦄

/-- A triple about what is read in a setting, read off what the reader does at each place. -/
lemma triple_iff_run {α : Type} {P : Setting → Prop} {Q : Setting → α → Prop} {p : Read α} :
    ⦃fun s => ⌜P s⌝⦄ p ⦃⇓? a => fun s => ⌜Q s a⌝⦄ ↔
      ∀ s, P s → ∀ i a j, p s i = some (a, j) → Q s a := by
  have hplace (s : Setting) (i : Nat) :
      (wp⟦p⟧ (PostCond.mayThrow fun a s => ⌜Q s a⌝) s i).down ↔
        ∀ a j, p s i = some (a, j) → Q s a := by
    change (PredTrans.apply (wp (p s i)) (PostCond.mayThrow fun a => ⌜Q s a.1⌝)).down ↔ _
    rcases p s i with - | ⟨a, j⟩
    · exact iff_of_true trivial fun _ _ h => nomatch h
    · exact ⟨fun h a' j' heq => by cases heq; exact h, fun h => h a j rfl⟩
  exact ⟨fun h s hs i => (hplace s i).1 (h s i hs), fun h s i hs => (hplace s i).2 (h s hs i)⟩

/-- The same for a triple without a precondition, about a value that has nothing to do with the
setting. -/
lemma triple_iff {α : Type} {P : α → Prop} {p : Read α} :
    ⦃⌜True⌝⦄ p ⦃⇓? a => ⌜P a⌝⦄ ↔ ∀ s i a j, p s i = some (a, j) → P a :=
  ⟨fun h s => triple_iff_run.1 h s trivial, fun h => triple_iff_run.2 fun s _ => h s⟩

/-- No reader changes the setting, so what is known of the setting is still known behind it. -/
lemma triple_frame {α : Type} {P : α → Prop} {p : Read α} (h : ⦃⌜True⌝⦄ p ⦃⇓? a => ⌜P a⌝⦄)
    (R : Setting → Prop) : ⦃fun s => ⌜R s⌝⦄ p ⦃⇓? a => fun s => ⌜P a ∧ R s⌝⦄ :=
  triple_iff_run.2 fun s hs i a j hrun => ⟨triple_iff.1 h s i a j hrun, hs⟩

/-- What a reader sees without taking anything is no part of a tree. -/
lemma triple_true {γ : Type} (p : Read γ) : ⦃⌜True⌝⦄ p ⦃⇓? _ => ⌜True⌝⦄ :=
  triple_iff.2 fun _ _ _ _ _ => trivial

/-- An optional reader gives what the reader gives, if that gives anything. -/
lemma triple_optional {α : Type} {Q : Setting → α → Prop} {p : Read α}
    (hp : ⦃⌜True⌝⦄ p ⦃⇓? a => fun s => ⌜Q s a⌝⦄) :
    ⦃⌜True⌝⦄ (optional p : Read (Option α)) ⦃⇓? o => fun s => ⌜∀ a, o = some a → Q s a⌝⦄ := by
  refine triple_iff_run.2 fun s hs i o j h a ha => ?_
  change ((p s i).bind (fun r => some (some r.1, r.2)) <|> some (none, i)) = some (o, j) at h
  rcases hrun : p s i with - | ⟨a', j'⟩
  · rw [hrun] at h
    cases h
    cases ha
  · rw [hrun] at h
    cases h
    cases ha
    exact triple_iff_run.1 hp s trivial i a' j' hrun

lemma closing_of {p : Read Node} (hlegible : p.Legible)
    (hclosed : ∀ cs, ⦃fun s => ⌜s.chars = cs⌝⦄ p ⦃⇓? n => ⌜ClosedAt cs n.stop⌝⦄) : p.Closing := by
  refine triple_iff_run.2 fun s _ i n j h => ⟨triple_iff.1 hlegible s i n j h, ?_⟩
  exact triple_iff_run.1 (hclosed s.chars) s rfl i n j h

section

variable {α : Type} [HoldsNodes α]

@[spec] lemma legible_failure {γ : Type} : ⦃⌜True⌝⦄ (failure : Read γ) ⦃⇓? _ => ⌜False⌝⦄ :=
  triple_iff.2 fun _ _ _ _ h => nomatch h

/-- Nothing is read behind a refusal, so what follows it need not be looked at. -/
@[spec 1100] lemma legible_failure_bind {γ δ : Type} (f : γ → Read δ) :
    ⦃⌜True⌝⦄ (failure >>= f : Read δ) ⦃⇓? _ => ⌜False⌝⦄ :=
  triple_iff.2 fun _ _ _ _ h => nomatch h

@[spec] lemma legible_orElse {p : Read α} {q : Unit → Read α} (hp : p.Legible)
    (hq : (q ()).Legible) : (HOrElse.hOrElse p q : Read α).Legible := by
  refine triple_iff.2 fun s i a j h => ?_
  change (p s i <|> q () s i) = some (a, j) at h
  rcases hfirst : p s i with - | ⟨a', j'⟩
  · rw [hfirst] at h
    exact triple_iff.1 hq s i a j h
  · rw [hfirst] at h
    cases h
    exact triple_iff.1 hp s i a j hfirst

@[spec] lemma legible_optional {p : Read α} (hp : p.Legible) :
    ⦃⌜True⌝⦄ (optional p : Read (Option α)) ⦃⇓? o => ⌜∀ a, o = some a → Source.Legible a⌝⦄ :=
  triple_optional hp

@[spec] lemma legible_withReader {f : Setting → Setting} {p : Read α} (hp : p.Legible) :
    (withReader f p : Read α).Legible :=
  triple_iff.2 fun s => triple_iff.1 hp (f s)

@[spec] lemma legible_enclosed {p : Read α} (hp : p.Legible) : (enclosed p).Legible :=
  legible_withReader hp

@[spec] lemma legible_endable {p : Read α} (hp : p.Legible) : (endable p).Legible :=
  legible_withReader hp

@[spec] lemma legible_maybe {p : Read α} (hp : p.Legible) : (maybe p).Legible := by
  mvcgen -trivial [maybe, hp]
  rename_i o _ _ ho
  cases o with
  | none => exact legible_nil
  | some a => exact legible_cons.2 ⟨ho a rfl, legible_nil⟩

lemma legible_upTo {p : Read α} (hp : p.Legible) (n : Nat) : (upTo p n).Legible := by
  induction n with
  | zero =>
    mvcgen -trivial [upTo]
    all_goals simp
  | succ n ih =>
    mvcgen -trivial [upTo, hp, ih]
    all_goals simp +contextual [*]

@[spec] lemma legible_many {p : Read α} (hp : p.Legible) : (many p).Legible := by
  have hupTo := legible_upTo hp
  mvcgen [many, hupTo]

end

/-! ## Looking ahead -/

section

variable {γ : Type}

@[spec] lemma legible_toLexeme : ⦃⌜True⌝⦄ toLexeme ⦃⇓? _ => ⌜True⌝⦄ := triple_true _

@[spec] lemma legible_peek : ⦃⌜True⌝⦄ peek ⦃⇓? _ => ⌜True⌝⦄ := triple_true _

@[spec] lemma legible_peekWord : ⦃⌜True⌝⦄ peekWord ⦃⇓? _ => ⌜True⌝⦄ := triple_true _

@[spec] lemma legible_ahead (p : Read γ) : ⦃⌜True⌝⦄ ahead p ⦃⇓? _ => ⌜True⌝⦄ := triple_true _

@[spec] lemma legible_sees (p : Read γ) : ⦃⌜True⌝⦄ sees p ⦃⇓? _ => ⌜True⌝⦄ := triple_true _

@[spec] lemma legible_atBreak (binary signature : Bool) :
    ⦃⌜True⌝⦄ atBreak binary signature ⦃⇓? _ => ⌜True⌝⦄ := triple_true _

@[spec] lemma legible_goesOn : ⦃⌜True⌝⦄ goesOn ⦃⇓? _ => ⌜True⌝⦄ := triple_true _

@[spec] lemma legible_typeGoesOn : ⦃⌜True⌝⦄ typeGoesOn ⦃⇓? _ => ⌜True⌝⦄ := triple_true _

end

/-! ## Nodes and lexemes -/

section

variable {kind : Kind}

@[spec] lemma legible_slice (start stop : Nat) : ⦃⌜True⌝⦄ slice start stop ⦃⇓? _ => ⌜True⌝⦄ :=
  triple_true _

@[spec] lemma legible_leaf (start stop : Nat) (hkind : kind.Plain) :
    (leaf kind start stop).Legible := by
  mvcgen -trivial [leaf] with simp [hkind]

@[spec] lemma legible_make {children : List Node} (hkind : kind.Plain)
    (h : Source.Legible children) : (make kind children).Legible := by
  mvcgen -trivial [make] with simp [hkind, h]

/-- A call is legible if its last part is closed. -/
@[spec 1100] lemma legible_makeCall {children : List Node} (h : Source.Legible children) :
    ⦃fun s => ⌜∃ n ∈ children.getLast?, ClosedAt s.chars n.stop⌝⦄ make .callExpression children
    ⦃⇓? n => ⌜Source.Legible n⌝⦄ := by
  mvcgen -trivial [make, slice, -legible_slice, -legible_make]
  rename_i s i hlast _ stop
  obtain ⟨n, hn, hclosed⟩ := hlast
  have hstop : stop = n.stop := by
    simp only [stop, Option.mem_def.1 hn, Option.map_some, Option.getD_some]
  rw [hstop]
  refine legible_node.2 (.of (fun hnumber => by cases hnumber) (fun _ => hclosed.closed _) ?_)
  exact fun m hm => legible_node.1 (h.of_mem hm)

@[spec] lemma legible_as {role : Role} {p : Read Node} (hp : p.Legible) : (as role p).Legible := by
  mvcgen -trivial [as, hp] with simp [*]

@[spec] lemma legible_symbol (text : String) : (symbol text).Legible := by
  mvcgen -trivial [symbol] with simp

@[spec 1100] lemma closing_symbol : (symbol ")").Closing := by
  have hlength : ")".length = 1 := rfl
  mvcgen -trivial [symbol, leaf, slice, -legible_symbol, -legible_leaf, -legible_slice] with
    simp_all +zetaDelta [matchesAt]

@[spec] lemma legible_operator (text : String) : (operator text).Legible := by
  mvcgen -trivial [operator] with simp

@[spec] lemma legible_wordOf (hkind : kind.Plain) : (wordOf kind).Legible := by
  mvcgen -trivial [wordOf] with simp [hkind]

@[spec] lemma legible_word (text : String) : (word text).Legible := by
  mvcgen -trivial [word] with simp [*]

@[spec] lemma legible_oneWord (texts : List String) : (oneWord texts).Legible := by
  mvcgen -trivial [oneWord] with simp [*]

@[spec] lemma legible_commaSep1 {p : Read Node} (hp : p.Legible) : (commaSep1 p).Legible := by
  mvcgen -trivial [commaSep1, hp] with simp +contextual [*]

@[spec] lemma legible_commaSepHoles {p : Read Node} (hp : p.Legible) :
    (commaSepHoles p).Legible := by
  mvcgen -trivial [commaSepHoles, hp] with simp +contextual [*]

@[spec] lemma legible_semicolon (binary : Bool) : (semicolon binary).Legible := by
  mvcgen -trivial [semicolon] with simp +contextual [*]

end

end Read

namespace Grammar

open Read

/-! ## Literals and names -/

@[spec] lemma legible_stringLiteral : stringLiteral.Legible := by
  mvcgen -trivial [stringLiteral] with simp +zetaDelta +contextual [*]

/-- Here the grammar makes numbers. -/
@[spec] lemma legible_numberLiteral : numberLiteral.Legible := by
  mvcgen [numberLiteral, leaf, slice, -legible_leaf, -legible_slice]
  case vc1 i j hnumber =>
    refine legible_node.2 (.of (fun _ => ?_) (by simp) (by simp))
    rw [String.toList_ofList]
    exact written_of_numberEnd? hnumber
  case vc2 => simp

lemma legible_templateOf {kind holeKind : Kind} (escapes : Bool) {hole : Read Node}
    (hkind : kind.Plain) (hholeKind : holeKind.Plain) (hhole : hole.Legible) :
    (templateOf kind holeKind escapes hole).Legible := by
  mvcgen -trivial [templateOf, hhole] with simp +zetaDelta +contextual [*]

/-- A template ends with a backquote. -/
lemma closed_templateOf (kind holeKind : Kind) (escapes : Bool) (hole : Read Node)
    (cs : Array Char) :
    ⦃fun s => ⌜s.chars = cs⌝⦄ templateOf kind holeKind escapes hole
    ⦃⇓? n => ⌜ClosedAt cs n.stop⌝⦄ := by
  have hpeek := triple_frame (triple_true peek) (·.chars = cs)
  have htoLexeme := triple_frame (triple_true toLexeme) (·.chars = cs)
  have hmany (q : Read Node) := triple_frame (triple_true (many q)) (·.chars = cs)
  mvcgen -trivial [templateOf, slice, hpeek, htoLexeme, hmany, -legible_peek, -legible_toLexeme,
    -legible_many, -legible_slice] with simp_all +zetaDelta

@[spec] lemma closing_templateOf {kind holeKind : Kind} (escapes : Bool) {hole : Read Node}
    (hkind : kind.Plain) (hholeKind : holeKind.Plain) (hhole : hole.Legible) :
    (templateOf kind holeKind escapes hole).Closing :=
  closing_of (legible_templateOf escapes hkind hholeKind hhole)
    (closed_templateOf kind holeKind escapes hole)

@[spec] lemma legible_modifier (words : List String) : (modifier words).Legible := by
  unfold modifier
  -- Which marks a name can start with does not matter, and their list is slow to work out.
  generalize "\x22'[#*\\".toList = marks
  mvcgen -trivial with simp +zetaDelta +contextual [*]

@[spec] lemma legible_typePath : typePath.Legible := by
  mvcgen -trivial [typePath]
  case inv1 => exact ⇓? ⟨_, path⟩ => ⌜Source.Legible path⌝
  all_goals simp_all +zetaDelta

@[spec] lemma legible_memberSeparator : memberSeparator.Legible := by
  mvcgen -trivial [memberSeparator] with simp +contextual [*]

@[spec] lemma legible_angled {kind : Kind} {item : Read Node} (hkind : kind.Plain)
    (hitem : item.Legible) : (angled kind item).Legible := by
  mvcgen -trivial [angled, hitem] with simp +zetaDelta +contextual [*]

@[spec] lemma legible_leftNested {kind : Kind} (op : String) {operand : Read Node}
    (hkind : kind.Plain) (hoperand : operand.Legible) :
    (leftNested kind op operand).Legible := by
  mvcgen -trivial [leftNested, hoperand]
  case inv1 | inv2 => exact ⇓? ⟨_, left⟩ => ⌜Source.Legible left⌝
  all_goals simp_all

section

variable {self : Rules} (hself : ∀ r, (self r).LegibleAs r)

include hself

/-! ## Annotations and parameters -/

@[spec] lemma legible_propertyName : (propertyName self).Legible := by
  mvcgen -trivial [propertyName, hself] with simp +zetaDelta +contextual [*]

@[spec] lemma legible_ascription : (ascription self).Legible := by
  mvcgen -trivial [ascription, hself] with simp +zetaDelta +contextual [*]

@[spec] lemma legible_typePredicate : (typePredicate self).Legible := by
  mvcgen -trivial [typePredicate, hself] with simp +zetaDelta +contextual [*]

@[spec] lemma legible_assertion : (assertion self).Legible := by
  mvcgen -trivial [assertion, hself] with simp +zetaDelta +contextual [*]

@[spec] lemma legible_resultAscription : (resultAscription self).Legible := by
  mvcgen -trivial [resultAscription, hself] with simp +zetaDelta +contextual [*]

@[spec] lemma legible_initializer : (initializer self).Legible := by
  mvcgen -trivial [initializer, hself] with simp +zetaDelta +contextual [*]

@[spec] lemma legible_callSignature : (callSignature self).Legible := by
  mvcgen -trivial [callSignature, hself] with simp +zetaDelta +contextual [*]

@[spec] lemma legible_typeParameter : (typeParameter self).Legible := by
  mvcgen -trivial [typeParameter, hself] with simp +zetaDelta +contextual [*]

@[spec] lemma legible_typeParameters : (typeParameters self).Legible := by
  mvcgen -trivial [typeParameters, hself] with simp +zetaDelta +contextual [*]

@[spec] lemma legible_typeArguments : (typeArguments self).Legible := by
  mvcgen -trivial [typeArguments, hself] with simp +zetaDelta +contextual [*]

@[spec] lemma legible_parameter : (parameter self).Legible := by
  mvcgen -trivial [parameter, hself] with simp +zetaDelta +contextual [*]

@[spec] lemma legible_formalParameters : (formalParameters self).Legible := by
  mvcgen -trivial [formalParameters, hself] with simp +zetaDelta +contextual [*]

/-! ## Types -/

@[spec] lemma legible_namedType : (namedType self).Legible := by
  mvcgen -trivial [namedType, hself] with simp +zetaDelta +contextual [*]

@[spec] lemma legible_pathStep (calls : Bool) {base : Node} (hbase : Source.Legible base) :
    (pathStep self calls base).Legible := by
  -- Here and at every other call, the role is unfolded, since the arguments stay closed in it.
  mvcgen -trivial [pathStep, as, hself, -legible_as] with simp +zetaDelta +contextual [*]

@[spec] lemma legible_pathSteps (calls : Bool) (n : Nat) {base : Node}
    (hbase : Source.Legible base) : (pathSteps self calls n base).Legible := by
  induction n generalizing base with
  | zero =>
    mvcgen -trivial [pathSteps]
    all_goals simp +contextual [*]
  | succ n ih =>
    mvcgen -trivial [pathSteps, ih, hself]
    all_goals simp +contextual [*]

@[spec] lemma legible_importedPath : (importedPath self).Legible := by
  mvcgen -trivial [importedPath, as, hself, -legible_as] with simp +zetaDelta +contextual [*]

@[spec] lemma legible_typeQuery : (typeQuery self).Legible := by
  mvcgen -trivial [typeQuery, hself] with simp +zetaDelta +contextual [*]

@[spec] lemma legible_indexAscription : (indexAscription self).Legible := by
  mvcgen -trivial [indexAscription, hself] with simp +zetaDelta +contextual [*]

@[spec] lemma legible_indexSignature : (indexSignature self).Legible := by
  mvcgen -trivial [indexSignature, hself] with simp +zetaDelta +contextual [*]

@[spec] lemma legible_constructSignature : (constructSignature self).Legible := by
  mvcgen -trivial [constructSignature, hself] with simp +zetaDelta +contextual [*]

@[spec] lemma legible_namedSignature : (namedSignature self).Legible := by
  mvcgen -trivial [namedSignature, hself] with simp +zetaDelta +contextual [*]

@[spec] lemma legible_objectTypeMember : (objectTypeMember self).Legible := by
  mvcgen -trivial [objectTypeMember, hself] with simp +zetaDelta +contextual [*]

@[spec] lemma legible_objectType {kind : Kind} (hkind : kind.Plain) :
    (objectType self kind).Legible := by
  mvcgen -trivial [objectType, hself] with simp +zetaDelta +contextual [*]

@[spec] lemma legible_tupleMember : (tupleMember self).Legible := by
  mvcgen -trivial [tupleMember, hself] with simp +zetaDelta +contextual [*]

@[spec] lemma legible_tupleType : (tupleType self).Legible := by
  mvcgen -trivial [tupleType, hself] with simp +zetaDelta +contextual [*]

@[spec] lemma legible_plainType : (plainType self).Legible := by
  mvcgen -trivial [plainType, hself] with simp +zetaDelta +contextual [*]

@[spec] lemma legible_typeBrackets (n : Nat) {t : Node} (ht : Source.Legible t) :
    (typeBrackets self n t).Legible := by
  induction n generalizing t with
  | zero =>
    mvcgen -trivial [typeBrackets]
    all_goals simp +contextual [*]
  | succ n ih =>
    mvcgen -trivial [typeBrackets, ih, hself]
    all_goals simp +contextual [*]

@[spec] lemma legible_primaryType : (primaryType self).Legible := by
  mvcgen -trivial [primaryType, hself] with simp +zetaDelta +contextual [*]

@[spec] lemma legible_functionType : (functionType self).Legible := by
  mvcgen -trivial [functionType, hself] with simp +zetaDelta +contextual [*]

@[spec] lemma legible_typeOperand : (typeOperand self).Legible := by
  mvcgen -trivial [typeOperand, hself] with simp +zetaDelta +contextual [*]

@[spec] lemma legible_type : (type self).Legible := by
  mvcgen -trivial [type, hself] with simp +zetaDelta +contextual [*]

end

end Grammar

end RouteScribe.Source
