import RouteScribe.Proofs.Source.Within
import RouteScribe.Source.Program

/-!
# Binders of names

Which declarations a name can refer to is described here without a search.  A function, a block, a
loop or the handler of an exception is a scope, and `bindings` lists what it binds a name to: its
parameters, its loop variable or what it catches, with all names inside patterns, the declarations
that stand in it outside of other scopes, and in a function the variables declared with `var` anywhere
outside of other functions.  A part of a class or a module that keeps such variables to itself counts
as a function in this respect.  The innermost scope around a node that binds its text is `binder?`.

The search behind `declaration?` asks the nodes around a name one after the other, and each only for
what it declares plainly (`DeclaresPlainly`): as a parameter that is a name, or in a declaration among
its own parts.  A plain declaration is one of the bindings of the scope that it stands in
(`mem_bindings_of_plain`), so the search finds the right one if the binder, or a node inside it,
declares the name plainly.  It has no way to see other bindings, and goes on outward past them.
-/

namespace RouteScribe.Source

/-! ## Scopes and what they bind -/

/-- Forms that a variable declared with `var` does not leave. -/
def Kind.keepsVariables (k : Kind) : Bool :=
  k.isFunction || k ∈ [.classStaticBlock, .internalModule, .moduleDeclaration]

/-- Forms that names are declared in, except for whole programs. -/
def Kind.isScope (k : Kind) : Bool :=
  k.keepsVariables || k ∈ [.statementBlock, .switchBody, .forStatement, .forInStatement,
    .whileStatement, .doStatement, .catchClause]

/-- Forms of declarations of variables. -/
def Kind.isVariableList (k : Kind) : Bool := k ∈ [.lexicalDeclaration, .variableDeclaration]

/-- Forms of declarations of something with a name of its own. -/
def Kind.isDeclaration (k : Kind) : Bool :=
  k ∈ [.functionDeclaration, .generatorFunctionDeclaration, .functionSignature, .classDeclaration,
    .abstractClassDeclaration, .enumDeclaration]

lemma Kind.isDeclaration_of_isNamedDeclaration {k : Kind} (h : k.isNamedDeclaration = true) :
    k.isDeclaration = true ∧ k.isVariableList = false := by
  unfold Kind.isNamedDeclaration at h
  split at h
  · exact ⟨rfl, rfl⟩
  · exact ⟨rfl, rfl⟩
  · exact ⟨rfl, rfl⟩
  · exact ⟨rfl, rfl⟩
  · cases h

lemma Kind.isScope_of_isVariableList {k : Kind} (h : k.isVariableList = true) : k.isScope = false := by
  simp only [Kind.isVariableList, List.mem_cons, List.not_mem_nil, or_false, decide_eq_true_eq] at h
  rcases h with rfl | rfl
  · rfl
  · rfl

namespace Node

mutual

/-- The names that a pattern binds. -/
def boundNames : Node → List String
  | ⟨kind, _, _, _, text, children⟩ =>
    match kind with
    | .identifier | .shorthandPattern => [text]
    | .objectPattern | .arrayPattern | .restPattern => boundNamesOf none children
    | .pairPattern => boundNamesOf (some .value) children
    | .assignmentPattern | .objectAssignmentPattern => boundNamesOf (some .left) children
    | _ => []

/-- The names that the parts of a pattern bind, all of them or those in a role. -/
def boundNamesOf (role : Option Role) : List Node → List String
  | [] => []
  | n :: rest =>
    (if role.all (· == n.role) then n.boundNames else []) ++ boundNamesOf role rest

end

def binds (n : Node) (name : String) : Bool := n.boundNames.contains name

lemma binds_of_identifier {n : Node} (h : n.kind = .identifier) : n.binds n.text = true := by
  obtain ⟨kind, role, start, stop, text, children⟩ := n
  obtain rfl : kind = .identifier := h
  simp [binds, boundNames]

end Node

namespace Cursor

mutual

/-- A node and those below it that can be reached without passing one where the way ends. -/
def reachFrom (ends : Kind → Bool) (above : List Node) : Node → List Cursor
  | ⟨kind, role, start, stop, text, children⟩ =>
    let n : Node := ⟨kind, role, start, stop, text, children⟩
    ⟨n, above⟩ :: if ends kind then [] else reachAll ends (n :: above) children

def reachAll (ends : Kind → Bool) (above : List Node) : List Node → List Cursor
  | [] => []
  | n :: rest => reachFrom ends above n ++ reachAll ends above rest

end

/-- The nodes below a node that can be reached without passing one where the way ends. -/
def reach (ends : Kind → Bool) (c : Cursor) : List Cursor :=
  reachAll ends (c.node :: c.above) c.node.children

/-- The variables of a declaration that bind a name. -/
def declarators (name : String) (statement : Cursor) : List Cursor :=
  statement.named.filter fun d =>
    d.kind == .variableDeclarator && (d.child? .name).any (·.node.binds name)

/-- What a statement binds a name to in the scope that it stands in. -/
def declared (name : String) (statement : Cursor) : List Cursor :=
  if statement.kind.isVariableList then statement.declarators name
  else if statement.kind.isDeclaration && (statement.child? .name).any (·.text == name)
  then [statement] else []

/-- The variable of a loop, if it is a new one. -/
def loopVariables (name : String) (loop : Cursor) : List Cursor :=
  if loop.kind == .forInStatement && (loop.child? .keyword).isSome
  then ((loop.child? .left).filter (·.node.binds name)).toList else []

/-- What a statement binds a name to in the whole function that it stands in. -/
def hoisted (name : String) (statement : Cursor) : List Cursor :=
  if statement.kind == .variableDeclaration then statement.declarators name
  else if (statement.child? .keyword).any (·.text == "var") then statement.loopVariables name else []

/-- The parameters of a function that bind a name. -/
def boundParameters (name : String) (f : Cursor) : List Cursor :=
  ((f.child? .parameter).filter (·.text == name)).toList ++
    (((f.child? .parameters).map named).getD []).filter fun p =>
      (p.child? .pattern).any (·.node.binds name)

/-- What a scope binds a name to. -/
def bindings (name : String) (scope : Cursor) : List Cursor :=
  (if scope.kind.isFunction then scope.boundParameters name else []) ++
  (if scope.kind.keepsVariables then (scope.reach Kind.keepsVariables).flatMap (hoisted name)
    else []) ++
  (if scope.kind == .catchClause then
    ((scope.child? .parameter).filter (·.node.binds name)).toList else []) ++
  scope.loopVariables name ++ (scope.reach Kind.isScope).flatMap (declared name)

/-- The nodes above a node in their places, the nearest first. -/
def enclosing : List Node → List Cursor
  | [] => []
  | n :: rest => ⟨n, rest⟩ :: enclosing rest

def ancestors (c : Cursor) : List Cursor := enclosing c.above

/-- The innermost scope around a node that binds its text. -/
def binder? (c : Cursor) : Option Cursor :=
  c.ancestors.find? fun scope => scope.kind.isScope && !(scope.bindings c.text).isEmpty

/-- A node declares a name as a parameter that is a plain name, or in a declaration among its parts,
exported or not. -/
inductive DeclaresPlainly (s : Cursor) (name : String) : Cursor → Prop
  /-- The only parameter of a function, written without parentheses. -/
  | single {d : Cursor} : s.kind.isFunction = true → s.child? .parameter = some d → d.text = name →
      DeclaresPlainly s name d
  | listed {ps d pattern : Cursor} : s.kind.isFunction = true → s.child? .parameters = some ps →
      d ∈ ps.named → d.child? .pattern = some pattern → pattern.kind = .identifier →
      pattern.text = name → DeclaresPlainly s name d
  | declarator {part d target : Cursor} : part ∈ s.named → part.exported.kind.isVariableList = true →
      d ∈ part.exported.named → d.kind = .variableDeclarator → d.child? .name = some target →
      target.kind = .identifier → target.text = name → DeclaresPlainly s name d
  | statement {part target : Cursor} : part ∈ s.named → part.exported.kind.isNamedDeclaration = true →
      part.exported.child? .name = some target → target.text = name →
      DeclaresPlainly s name part.exported

variable {b c d s t : Cursor} {n : Node} {name : String} {ends : Kind → Bool}

/-! ## Reaching parts -/

mutual

lemma down_mem_reachFrom {above : List Node} {n m : Node} {c : Cursor}
    (hc : c ∈ reachFrom ends above n) (hends : ends c.kind = false) (hm : m ∈ c.node.children) :
    c.down m ∈ reachFrom ends above n := by
  match n with
  | ⟨kind, role, start, stop, text, children⟩ =>
    rw [reachFrom] at hc ⊢
    rcases List.mem_cons.1 hc with rfl | hc
    · have hkind : ends kind = false := hends
      rw [hkind]
      exact List.mem_cons_of_mem _ (mem_reachAll hm)
    · split at hc
      case isTrue => cases hc
      case isFalse hgoes =>
        rw [if_neg hgoes]
        exact List.mem_cons_of_mem _ (down_mem_reachAll hc hends hm)

lemma down_mem_reachAll {above : List Node} {ns : List Node} {m : Node} {c : Cursor}
    (hc : c ∈ reachAll ends above ns) (hends : ends c.kind = false) (hm : m ∈ c.node.children) :
    c.down m ∈ reachAll ends above ns := by
  match ns with
  | [] => cases hc
  | n :: rest =>
    rw [reachAll, List.mem_append] at hc ⊢
    rcases hc with hc | hc
    · exact .inl (down_mem_reachFrom hc hends hm)
    · exact .inr (down_mem_reachAll hc hends hm)

lemma mem_reachAll {above : List Node} {ns : List Node} {m : Node} (hm : m ∈ ns) :
    ⟨m, above⟩ ∈ reachAll ends above ns := by
  match ns with
  | [] => cases hm
  | n :: rest =>
    rw [reachAll, List.mem_append]
    rcases List.mem_cons.1 hm with rfl | hm
    · left
      cases m
      exact List.mem_cons_self
    · exact .inr (mem_reachAll hm)

end

/-- The parts of a node are reached. -/
lemma down_mem_reach (hn : n ∈ c.node.children) : c.down n ∈ c.reach ends := mem_reachAll hn

/-- The parts of a node that is reached are reached, unless the way ends there. -/
lemma down_mem_reach_of_mem (hd : d ∈ c.reach ends) (hends : ends d.kind = false)
    (hn : n ∈ d.node.children) : d.down n ∈ c.reach ends := down_mem_reachAll hd hends hn

/-! ## What the search finds -/

/-- The search takes what the first of the nodes around a name declares. -/
lemma declaredAbove?_eq_findSome? (name : String) (nodes : List Node) :
    declaredAbove? name nodes = (enclosing nodes).findSome? (·.declaredIn? name) := by
  induction nodes with
  | nil => rfl
  | cons n rest ih =>
    rw [declaredAbove?, enclosing, List.findSome?_cons]
    split
    case h_1 hd => rw [hd]
    case h_2 hnone => rw [hnone, ih]

lemma plain_of_parameter? (hs : s.kind.isFunction = true) (h : s.parameter? name = some d) :
    s.DeclaresPlainly name d := by
  simp only [parameter?, Option.orElse_eq_orElse, Option.orElse_eq_or] at h
  rcases Option.or_eq_some_iff.1 h with hsingle | ⟨-, hlisted⟩
  · obtain ⟨hd, htext⟩ := Option.filter_eq_some_iff.1 hsingle
    exact .single hs hd (eq_of_beq htext)
  · obtain ⟨ps, hps, hfind⟩ := Option.bind_eq_some_iff.1 hlisted
    have hfound := List.find?_some hfind
    obtain ⟨pattern, hpattern, htarget⟩ := (Option.any_eq_true _ _).1 hfound
    obtain ⟨hkind, htext⟩ := Bool.and_eq_true_iff.1 htarget
    exact .listed hs hps (List.mem_of_find?_eq_some hfind) hpattern (eq_of_beq hkind)
      (eq_of_beq htext)

lemma isVariableList_iff (k : Kind) : k.isVariableList = true ↔
    (k == .lexicalDeclaration || k == .variableDeclaration) = true := by
  simp [Kind.isVariableList]

lemma plain_of_declares? {part : Cursor} (hpart : part ∈ s.named)
    (h : part.exported.declares? name = some d) : s.DeclaresPlainly name d := by
  rw [declares?] at h
  split at h
  case isTrue hkind =>
    have hfound := List.find?_some h
    obtain ⟨hdeclarator, htarget⟩ := Bool.and_eq_true_iff.1 hfound
    obtain ⟨target, htarget, hname⟩ := (Option.any_eq_true _ _).1 htarget
    obtain ⟨hidentifier, htext⟩ := Bool.and_eq_true_iff.1 hname
    exact .declarator hpart ((isVariableList_iff _).2 hkind) (List.mem_of_find?_eq_some h)
      (eq_of_beq hdeclarator) htarget (eq_of_beq hidentifier) (eq_of_beq htext)
  case isFalse =>
    split at h
    case isFalse => cases h
    case isTrue hkind =>
      split at h
      case isFalse => cases h
      case isTrue htarget =>
        cases h
        obtain ⟨target, htarget, htext⟩ := (Option.any_eq_true _ _).1 htarget
        exact .statement hpart hkind htarget (eq_of_beq htext)

/-- Only plain declarations are found. -/
lemma plain_of_declaredIn? (h : s.declaredIn? name = some d) : s.DeclaresPlainly name d := by
  simp only [declaredIn?, Option.orElse_eq_orElse, Option.orElse_eq_or] at h
  rcases Option.or_eq_some_iff.1 h with hbound | ⟨-, hdeclared⟩
  · split at hbound
    case isTrue hs => exact plain_of_parameter? hs hbound
    case isFalse => cases hbound
  · obtain ⟨part, hpart, hdeclares⟩ := List.exists_of_findSome?_eq_some hdeclared
    exact plain_of_declares? hpart hdeclares

/-- A declaration among the parts of a node is enough for one to be found. -/
lemma isSome_of_declares? {part : Cursor} (hpart : part ∈ s.named)
    (h : (part.exported.declares? name).isSome = true) : (s.declaredIn? name).isSome = true := by
  simp only [declaredIn?, Option.orElse_eq_orElse, Option.orElse_eq_or, Option.isSome_or,
    Bool.or_eq_true]
  exact .inr (List.findSome?_isSome_iff.2 ⟨part, hpart, h⟩)

/-- Where there is a plain parameter, one is found. -/
lemma isSome_of_parameter? (hs : s.kind.isFunction = true) (h : (s.parameter? name).isSome = true) :
    (s.declaredIn? name).isSome = true := by
  simp only [declaredIn?, Option.orElse_eq_orElse, Option.orElse_eq_or, Option.isSome_or,
    Bool.or_eq_true, if_pos hs]
  exact .inl h

/-- Where there is a plain declaration, one is found. -/
lemma isSome_of_plain (h : s.DeclaresPlainly name d) : (s.declaredIn? name).isSome = true := by
  cases h with
  | single hs hd htext =>
    refine isSome_of_parameter? hs ?_
    simp [parameter?, hd, htext]
  | @listed ps _ pattern hs hps hd hpattern hkind htext =>
    refine isSome_of_parameter? hs ?_
    have hlisted : (ps.named.find? fun p => (p.child? .pattern).any fun target =>
        target.kind == .identifier && target.text == name).isSome = true :=
      List.find?_isSome.2 ⟨d, hd, by simp [hpattern, hkind, htext]⟩
    simp only [parameter?, hps, Option.bind_some, Option.orElse_eq_orElse, Option.orElse_eq_or,
      Option.isSome_or, hlisted, Bool.or_true]
  | declarator hpart hkind hd hdeclarator htarget hidentifier htext =>
    refine isSome_of_declares? hpart ?_
    rw [declares?, if_pos ((isVariableList_iff _).1 hkind), List.find?_isSome]
    exact ⟨d, hd, by simp [hdeclarator, htarget, hidentifier, htext]⟩
  | @statement part target hpart hkind htarget htext =>
    refine isSome_of_declares? hpart ?_
    have hlist := (Kind.isDeclaration_of_isNamedDeclaration hkind).2
    rw [← Bool.not_eq_true, isVariableList_iff] at hlist
    have hany : (part.exported.child? .name).any (·.text == name) = true := by simp [htarget, htext]
    rw [declares?, if_neg hlist, if_pos hkind, if_pos hany]
    rfl

lemma declaredIn?_eq_none_iff :
    s.declaredIn? name = none ↔ ∀ d, ¬s.DeclaresPlainly name d := by
  constructor
  · intro hnone d hd
    have hsome := isSome_of_plain hd
    rw [hnone] at hsome
    cases hsome
  · intro hplain
    rcases hd : s.declaredIn? name with - | d
    · rfl
    · exact absurd (plain_of_declaredIn? hd) (hplain d)

/-! ## Plain declarations belong to scopes -/

/-- The parts of a node belong to the nearest scope at or around it. -/
def BelongsTo (s t : Cursor) : Prop := t = s ∨ s ∈ t.reach Kind.isScope ∧ s.kind.isScope = false

lemma BelongsTo.down_mem_reach (h : s.BelongsTo t) (hn : n ∈ s.node.children) :
    s.down n ∈ t.reach Kind.isScope := by
  rcases h with rfl | ⟨hs, hkind⟩
  · exact Cursor.down_mem_reach hn
  · exact down_mem_reach_of_mem hs hkind hn

lemma BelongsTo.eq_of_isFunction (h : s.BelongsTo t) (hs : s.kind.isFunction = true) : t = s := by
  rcases h with rfl | ⟨-, hkind⟩
  · rfl
  · simp [Kind.isScope, Kind.keepsVariables, hs] at hkind

lemma BelongsTo.exported_mem_reach (h : s.BelongsTo t) {part : Cursor} (hpart : part ∈ s.named) :
    part.exported ∈ t.reach Kind.isScope := by
  obtain ⟨n, hn, rfl⟩ := exists_of_mem_named hpart
  have hreach := h.down_mem_reach hn
  unfold exported
  split
  case isFalse => exact hreach
  case isTrue hkind =>
    rcases hd : (s.down n).child? .declaration with - | d
    · exact hreach
    · obtain ⟨m, hm, rfl⟩ := exists_of_child? hd
      exact down_mem_reach_of_mem hreach (by rw [eq_of_beq hkind]; rfl) hm

/-- A plain declaration is one of the bindings of the scope that it belongs to. -/
theorem mem_bindings_of_plain (h : s.BelongsTo t) (hd : s.DeclaresPlainly name d) :
    d ∈ t.bindings name := by
  unfold bindings
  simp only [List.mem_append]
  cases hd with
  | single hs hd htext =>
    obtain rfl := h.eq_of_isFunction hs
    rw [if_pos hs]
    refine .inl (.inl (.inl (.inl (List.mem_append_left _ ?_))))
    simp [hd, htext]
  | @listed ps _ pattern hs hps hd hpattern hkind htext =>
    obtain rfl := h.eq_of_isFunction hs
    rw [if_pos hs]
    refine .inl (.inl (.inl (.inl (List.mem_append_right _ ?_))))
    have hbinds : pattern.node.binds name = true := htext ▸ Node.binds_of_identifier hkind
    simp [hps, hd, hpattern, hbinds]
  | @declarator part _ target hpart hkind hd hdeclarator htarget hidentifier htext =>
    refine .inr (List.mem_flatMap.2 ⟨part.exported, h.exported_mem_reach hpart, ?_⟩)
    have hbinds : target.node.binds name = true := htext ▸ Node.binds_of_identifier hidentifier
    rw [declared, if_pos hkind, declarators, List.mem_filter]
    exact ⟨hd, by simp [hdeclarator, htarget, hbinds]⟩
  | @statement part target hpart hkind htarget htext =>
    refine .inr (List.mem_flatMap.2 ⟨part.exported, h.exported_mem_reach hpart, ?_⟩)
    obtain ⟨hdeclaration, hlist⟩ := Kind.isDeclaration_of_isNamedDeclaration hkind
    rw [declared, if_neg (Bool.eq_false_iff.1 hlist), if_pos (by simp [hdeclaration, htarget, htext])]
    exact List.mem_singleton_self _

/-- Among the nodes from a node out to a scope around it there is one that the node belongs to. -/
lemma exists_scope {root : Node} (hs : Within root s) (hscope : b.kind.isScope = true)
    {near : List Cursor} (hnear : s :: s.ancestors = near ++ b.ancestors)
    (hlast : near.getLast? = some b) : ∃ t ∈ near, t.kind.isScope = true ∧ s.BelongsTo t := by
  induction hs generalizing near with
  | root =>
    match near with
    | [t] =>
      obtain rfl := (List.cons.inj hnear).1
      obtain rfl : _ = b := Option.some.inj hlast
      exact ⟨_, List.mem_singleton_self _, hscope, .inl rfl⟩
    | _ :: t :: rest => cases (List.cons.inj hnear).2
  | @down s n hs hn ih =>
    match near with
    | [t] =>
      obtain rfl := (List.cons.inj hnear).1
      obtain rfl : _ = b := Option.some.inj hlast
      exact ⟨_, List.mem_singleton_self _, hscope, .inl rfl⟩
    | t :: t' :: rest =>
      obtain ⟨rfl, houter⟩ := List.cons.inj hnear
      by_cases hkind : (s.down n).kind.isScope = true
      · exact ⟨_, List.mem_cons_self, hkind, .inl rfl⟩
      · obtain ⟨t, ht, htkind, hbelongs⟩ := ih houter (by rwa [List.getLast?_cons_cons] at hlast)
        exact ⟨t, List.mem_cons_of_mem _ ht, htkind,
          .inr ⟨hbelongs.down_mem_reach hn, Bool.eq_false_iff.2 hkind⟩⟩

/-! ## The innermost binder -/

lemma eq_ancestors_of_enclosing {nodes : List Node} {inside outside : List Cursor}
    (h : enclosing nodes = inside ++ b :: outside) : outside = b.ancestors := by
  induction nodes generalizing inside with
  | nil => simp [enclosing] at h
  | cons n rest ih =>
    rw [enclosing] at h
    cases inside with
    | nil =>
      obtain ⟨rfl, rfl⟩ := List.cons.inj h
      rfl
    | cons s inside => exact ih (List.cons.inj h).2

lemma within_of_mem_ancestors {root : Node} (hc : Within root c) (hs : s ∈ c.ancestors) :
    Within root s := by
  induction hc with
  | root => cases hs
  | down hc _ ih =>
    rcases List.mem_cons.1 hs with rfl | hs
    · exact hc
    · exact ih hs

/-- The innermost binder is a scope, and no scope inside it binds the name. -/
lemma exists_of_binder? (hb : c.binder? = some b) : b.kind.isScope = true ∧
    ∃ inside, c.ancestors = inside ++ b :: b.ancestors ∧
      ∀ t ∈ inside, t.kind.isScope = true → t.bindings c.text = [] := by
  obtain ⟨hbinds, inside, outside, hsplit, hinside⟩ := List.find?_eq_some_iff_append.1 hb
  obtain rfl := eq_ancestors_of_enclosing hsplit
  refine ⟨(Bool.and_eq_true_iff.1 hbinds).1, inside, hsplit, fun t ht hkind => ?_⟩
  simpa [hkind] using hinside t ht

/-- At or inside the innermost binder, plain declarations of the name are its own. -/
lemma mem_bindings_of_inside {root : Node} (hc : Within root c) (hscope : b.kind.isScope = true)
    {inside : List Cursor} (hsplit : c.ancestors = inside ++ b :: b.ancestors)
    (hinside : ∀ t ∈ inside, t.kind.isScope = true → t.bindings c.text = [])
    (hs : s ∈ inside ++ [b]) (hd : s.DeclaresPlainly c.text d) : d ∈ b.bindings c.text := by
  have hall : c.ancestors = (inside ++ [b]) ++ b.ancestors := by
    rw [hsplit, List.append_assoc, List.singleton_append]
  have hwithin := within_of_mem_ancestors hc (hall ▸ List.mem_append_left _ hs)
  obtain ⟨before, after, hmem⟩ := List.append_of_mem hs
  have hlast : (s :: after).getLast? = some b := by
    rw [← List.getLast?_append_of_ne_nil before (List.cons_ne_nil s after), ← hmem,
      List.getLast?_concat]
  have hnear : s :: s.ancestors = (s :: after) ++ b.ancestors := by
    rw [hmem, List.append_assoc, List.cons_append] at hall
    rw [List.cons_append, eq_ancestors_of_enclosing hall]
  obtain ⟨t, ht, htkind, hbelongs⟩ := exists_scope hwithin hscope hnear hlast
  have hbound := mem_bindings_of_plain hbelongs hd
  -- A scope inside the innermost binder binds nothing of that name.
  have htb : t ∈ inside ++ [b] := hmem ▸ List.mem_append_right _ ht
  rcases List.mem_append.1 htb with ht | ht
  · rw [hinside t ht htkind] at hbound
    cases hbound
  · rwa [← List.mem_singleton.1 ht]

/-! ## Bindings stand inside their scope, shadowed declarations outside -/

lemma mem_ancestors_of_above {before : List Node} (h : c.above = before ++ b.node :: b.above) :
    b ∈ c.ancestors := by
  unfold ancestors
  rw [h]
  clear h
  induction before with
  | nil => exact List.mem_cons_self
  | cons n before ih => exact List.mem_cons_of_mem _ ih

lemma length_above_lt (h : b ∈ c.ancestors) : b.above.length < c.above.length := by
  unfold ancestors at h
  generalize c.above = nodes at h
  induction nodes with
  | nil => cases h
  | cons n rest ih =>
    rcases List.mem_cons.1 h with rfl | h
    · exact Nat.lt_succ_self _
    · exact (ih h).trans (Nat.lt_succ_self _)

mutual

lemma above_of_mem_reachFrom {above : List Node} {n : Node} (hc : c ∈ reachFrom ends above n) :
    ∃ before, c.above = before ++ above := by
  match n with
  | ⟨kind, role, start, stop, text, children⟩ =>
    rw [reachFrom] at hc
    rcases List.mem_cons.1 hc with rfl | hc
    · exact ⟨[], rfl⟩
    · split at hc
      case isTrue => cases hc
      case isFalse =>
        obtain ⟨before, hbefore⟩ := above_of_mem_reachAll hc
        exact ⟨before ++ [⟨kind, role, start, stop, text, children⟩], by simp [hbefore]⟩

lemma above_of_mem_reachAll {above ns : List Node} (hc : c ∈ reachAll ends above ns) :
    ∃ before, c.above = before ++ above := by
  match ns with
  | [] => cases hc
  | n :: rest =>
    rw [reachAll, List.mem_append] at hc
    rcases hc with hc | hc
    · exact above_of_mem_reachFrom hc
    · exact above_of_mem_reachAll hc

end

lemma mem_ancestors_of_mem_reach (hs : s ∈ b.reach ends) : b ∈ s.ancestors := by
  obtain ⟨before, hbefore⟩ := above_of_mem_reachAll hs
  exact mem_ancestors_of_above hbefore

lemma mem_ancestors_of_mem_named (hs : b ∈ s :: s.ancestors) (hd : d ∈ s.named) :
    b ∈ d.ancestors := by
  obtain ⟨n, -, rfl⟩ := exists_of_mem_named hd
  exact hs

lemma mem_ancestors_of_child? {role : Role} (hs : b ∈ s :: s.ancestors)
    (hd : s.child? role = some d) : b ∈ d.ancestors := by
  obtain ⟨n, -, rfl⟩ := exists_of_child? hd
  exact hs

lemma mem_ancestors_of_loopVariables (hs : b ∈ s :: s.ancestors) (hd : d ∈ s.loopVariables name) :
    b ∈ d.ancestors := by
  unfold loopVariables at hd
  split at hd
  case isTrue =>
    exact mem_ancestors_of_child? hs (Option.filter_eq_some_iff.1 (Option.mem_toList.1 hd)).1
  case isFalse => cases hd

lemma mem_ancestors_of_declarators (hs : b ∈ s :: s.ancestors) (hd : d ∈ s.declarators name) :
    b ∈ d.ancestors :=
  mem_ancestors_of_mem_named hs (List.mem_filter.1 hd).1

/-- What a scope binds a name to stands inside it. -/
theorem mem_ancestors_of_mem_bindings (hd : d ∈ b.bindings name) : b ∈ d.ancestors := by
  simp only [bindings, List.mem_append] at hd
  rcases hd with (((hparameter | hhoisted) | hcaught) | hloop) | hdeclared
  · split at hparameter
    case isFalse => cases hparameter
    case isTrue =>
      rcases List.mem_append.1 hparameter with hsingle | hlisted
      · exact mem_ancestors_of_child? List.mem_cons_self
          (Option.filter_eq_some_iff.1 (Option.mem_toList.1 hsingle)).1
      · rcases hps : b.child? .parameters with - | ps
        · simp [hps] at hlisted
        · rw [hps] at hlisted
          exact mem_ancestors_of_mem_named
            (List.mem_cons_of_mem _ (mem_ancestors_of_child? List.mem_cons_self hps))
            (List.mem_filter.1 hlisted).1
  · split at hhoisted
    case isFalse => cases hhoisted
    case isTrue =>
      obtain ⟨s, hs, hd⟩ := List.mem_flatMap.1 hhoisted
      have hbs := List.mem_cons_of_mem s (mem_ancestors_of_mem_reach hs)
      unfold hoisted at hd
      split at hd
      · exact mem_ancestors_of_declarators hbs hd
      · split at hd
        · exact mem_ancestors_of_loopVariables hbs hd
        · cases hd
  · split at hcaught
    · exact mem_ancestors_of_child? List.mem_cons_self
        (Option.filter_eq_some_iff.1 (Option.mem_toList.1 hcaught)).1
    · cases hcaught
  · exact mem_ancestors_of_loopVariables List.mem_cons_self hloop
  · obtain ⟨s, hs, hd⟩ := List.mem_flatMap.1 hdeclared
    have hbs := mem_ancestors_of_mem_reach hs
    unfold declared at hd
    split at hd
    · exact mem_ancestors_of_declarators (List.mem_cons_of_mem s hbs) hd
    · split at hd
      · rwa [List.mem_singleton.1 hd]
      · cases hd

lemma role_of_child? {role : Role} (h : s.child? role = some d) : d.node.role = role := by
  obtain ⟨n, hn, rfl⟩ := Option.map_eq_some_iff.1 h
  rw [Node.child?] at hn
  have hrole := List.find?_some hn
  exact eq_of_beq hrole

/-- What stands around an exported declaration, up to the node that the export is a part of. -/
lemma eq_of_mem_ancestors_exported {part : Cursor} (hpart : part ∈ s.named)
    (hscope : b.kind.isScope = true) (hb : b ∈ part.exported.ancestors) : b ∈ s :: s.ancestors := by
  obtain ⟨n, hn, rfl⟩ := exists_of_mem_named hpart
  unfold exported at hb
  split at hb
  case isFalse => exact hb
  case isTrue hkind =>
    rcases hd : (s.down n).child? .declaration with - | d
    · rw [hd] at hb
      exact hb
    · obtain ⟨m, hm, rfl⟩ := exists_of_child? hd
      rw [hd] at hb
      refine (List.mem_cons.1 hb).resolve_left ?_
      rintro rfl
      rw [eq_of_beq hkind] at hscope
      cases hscope

/-- What a node around a scope declares plainly stands outside of the scope. -/
theorem notMem_ancestors_of_plain (hs : s ∈ b.ancestors) (hscope : b.kind.isScope = true)
    (hrole : b.node.role ≠ .parameters) (hd : s.DeclaresPlainly name d) : b ∉ d.ancestors := by
  have houter : b ∉ s :: s.ancestors := by
    intro hb
    have hlt := length_above_lt hs
    rcases List.mem_cons.1 hb with rfl | hb
    · exact hlt.false
    · exact (hlt.trans (length_above_lt hb)).false
  intro hb
  cases hd with
  | single _ hd =>
    obtain ⟨n, -, rfl⟩ := exists_of_child? hd
    exact houter hb
  | listed _ hps hd =>
    obtain ⟨n, -, rfl⟩ := exists_of_mem_named hd
    rcases List.mem_cons.1 hb with rfl | hb
    · exact hrole (role_of_child? hps)
    · obtain ⟨m, -, rfl⟩ := exists_of_child? hps
      exact houter hb
  | declarator hpart hkind hd =>
    obtain ⟨n, -, rfl⟩ := exists_of_mem_named hd
    rcases List.mem_cons.1 hb with rfl | hb
    · rw [Kind.isScope_of_isVariableList hkind] at hscope
      cases hscope
    · exact houter (eq_of_mem_ancestors_exported hpart hscope hb)
  | statement hpart => exact houter (eq_of_mem_ancestors_exported hpart hscope hb)

/-! ## The declaration that is found -/

lemma declaration?_eq_or {inside : List Cursor} (hsplit : c.ancestors = inside ++ b :: b.ancestors) :
    c.declaration? = ((inside ++ [b]).findSome? (·.declaredIn? c.text)).or
      (b.ancestors.findSome? (·.declaredIn? c.text)) := by
  rw [declaration?, declaredAbove?_eq_findSome?, ← List.findSome?_append, List.append_assoc,
    List.singleton_append, ← hsplit, ancestors]

/-- If the name is declared plainly at or inside its binder, then one of the bindings is found. -/
lemma declaration?_of_inside {root : Node} (hc : Within root c) (hscope : b.kind.isScope = true)
    {inside : List Cursor} (hsplit : c.ancestors = inside ++ b :: b.ancestors)
    (hinside : ∀ t ∈ inside, t.kind.isScope = true → t.bindings c.text = [])
    (hplain : ∃ s ∈ inside ++ [b], ∃ d, s.DeclaresPlainly c.text d) :
    ∃ d ∈ b.bindings c.text, c.declaration? = some d := by
  obtain ⟨s, hs, d, hd⟩ := hplain
  have hsome : ((inside ++ [b]).findSome? (·.declaredIn? c.text)).isSome = true :=
    List.findSome?_isSome_iff.2 ⟨s, hs, isSome_of_plain hd⟩
  obtain ⟨d', hd'⟩ := Option.isSome_iff_exists.1 hsome
  obtain ⟨s', hs', hfound⟩ := List.exists_of_findSome?_eq_some hd'
  refine ⟨d', mem_bindings_of_inside hc hscope hsplit hinside hs' (plain_of_declaredIn? hfound), ?_⟩
  rw [declaration?_eq_or hsplit, hd', Option.some_or]

/-- If it is not, then the search goes on outside of the binder. -/
lemma declaration?_of_outside {inside : List Cursor}
    (hsplit : c.ancestors = inside ++ b :: b.ancestors)
    (hnone : ∀ s ∈ inside ++ [b], ∀ d, ¬s.DeclaresPlainly c.text d) :
    ((∃ d, c.declaration? = some d) ↔ ∃ s ∈ b.ancestors, ∃ d, s.DeclaresPlainly c.text d) ∧
      ∀ d, c.declaration? = some d → ∃ s ∈ b.ancestors, s.DeclaresPlainly c.text d := by
  have hinner : (inside ++ [b]).findSome? (·.declaredIn? c.text) = none :=
    List.findSome?_eq_none_iff.2 fun s hs => declaredIn?_eq_none_iff.2 (hnone s hs)
  have hsearch := declaration?_eq_or hsplit
  rw [hinner, Option.none_or] at hsearch
  have hfound (d : Cursor) (hd : c.declaration? = some d) :
      ∃ s ∈ b.ancestors, s.DeclaresPlainly c.text d := by
    rw [hsearch] at hd
    obtain ⟨s, hs, hd⟩ := List.exists_of_findSome?_eq_some hd
    exact ⟨s, hs, plain_of_declaredIn? hd⟩
  refine ⟨⟨fun ⟨d, hd⟩ => (hfound d hd).imp fun s h => ⟨h.1, d, h.2⟩, ?_⟩, hfound⟩
  rintro ⟨s, hs, d, hd⟩
  rw [hsearch, ← Option.isSome_iff_exists]
  exact List.findSome?_isSome_iff.2 ⟨s, hs, isSome_of_plain hd⟩

/-- **Which declaration a name is given.**  Let `b` be the innermost scope around a node of a tree that
binds its text.  If `b` or a node between the two declares the name plainly, then the declaration that
is found is one of the bindings of `b`.  Otherwise the search goes on outside of `b`: a declaration is
found exactly if some node around `b` declares the name plainly, and it is such a declaration, one that
`b` shadows.

So nothing but a binding of `b` is ever found exactly if `b` or a node inside it declares the name
plainly, or no node around `b` does.  (No scope has the role of a list of parameters.) -/
theorem declaration_of_binder {root : Node} (hc : Within root c) (hb : c.binder? = some b) :
    ∃ inside, c.ancestors = inside ++ b :: b.ancestors ∧
      ((∃ s ∈ inside ++ [b], ∃ d, s.DeclaresPlainly c.text d) →
        ∃ d ∈ b.bindings c.text, c.declaration? = some d) ∧
      ((∀ s ∈ inside ++ [b], ∀ d, ¬s.DeclaresPlainly c.text d) →
        ((∃ d, c.declaration? = some d) ↔ ∃ s ∈ b.ancestors, ∃ d, s.DeclaresPlainly c.text d) ∧
        ∀ d, c.declaration? = some d → ∃ s ∈ b.ancestors, s.DeclaresPlainly c.text d) ∧
      (b.node.role ≠ .parameters →
        ((∀ d, c.declaration? = some d → d ∈ b.bindings c.text) ↔
          (∃ s ∈ inside ++ [b], ∃ d, s.DeclaresPlainly c.text d) ∨
          ∀ s ∈ b.ancestors, ∀ d, ¬s.DeclaresPlainly c.text d)) := by
  obtain ⟨hscope, inside, hsplit, hinside⟩ := exists_of_binder? hb
  have hown := declaration?_of_inside hc hscope hsplit hinside
  have houter := declaration?_of_outside hsplit
  refine ⟨inside, hsplit, hown, houter, fun hrole => ⟨fun hbound => ?_, ?_⟩⟩
  · by_contra hneither
    obtain ⟨hinner, hplain⟩ := not_or.1 hneither
    push Not at hinner hplain
    obtain ⟨hexists, hfound⟩ := houter hinner
    obtain ⟨d, hd⟩ := hexists.2 hplain
    obtain ⟨s, hs, hdeclares⟩ := hfound d hd
    exact notMem_ancestors_of_plain hs hscope hrole hdeclares
      (mem_ancestors_of_mem_bindings (hbound d hd))
  · intro hcases d hd
    by_cases hinner : ∃ s ∈ inside ++ [b], ∃ d, s.DeclaresPlainly c.text d
    · obtain ⟨d', hd', hfound⟩ := hown hinner
      rw [hfound] at hd
      cases hd
      exact hd'
    · have hnone := hinner
      push Not at hnone
      obtain ⟨s, hs, hdeclares⟩ := (houter hnone).2 d hd
      exact absurd hdeclares (hcases.resolve_left hinner s hs d)

/-- In a block that declares a name again, plainly, its own declaration is found. -/
theorem declaration_of_block :
    ∃ root c b, parse .plain "let s = 1; \x7b let s = 2; f(s) \x7d\n" = some root ∧
    Within root c ∧ c.text = "s" ∧ c.binder? = some b ∧
    ∃ d ∈ b.bindings c.text, c.declaration? = some d ∧ d.text = "s = 2" := by
  have hspec : ((parse .plain "let s = 1; \x7b let s = 2; f(s) \x7d\n").any fun root =>
      (root.nth 22).text == "s" &&
      ((root.nth 22).binder?.any fun b => (b.declaredIn? (root.nth 22).text).isSome) &&
      ((root.nth 22).declaration?.any (·.text == "s = 2"))) = true := by
    decide +kernel
  obtain ⟨root, hparse, hroot⟩ := (Option.any_eq_true _ _).1 hspec
  simp only [Bool.and_eq_true] at hroot
  obtain ⟨⟨htext, hbinder⟩, hdeclaration⟩ := hroot
  obtain ⟨b, hb, hplain⟩ := (Option.any_eq_true _ _).1 hbinder
  obtain ⟨d, hd⟩ := Option.isSome_iff_exists.1 hplain
  obtain ⟨inside, -, hown, -⟩ := declaration_of_binder (within_nth root 22) hb
  obtain ⟨d', hbound, hfound⟩ :=
    hown ⟨b, List.mem_append_right _ List.mem_cons_self, d, plain_of_declaredIn? hd⟩
  rw [hfound] at hdeclaration
  exact ⟨root, _, b, hparse, within_nth root 22, eq_of_beq htext, hb, d', hbound, hfound,
    eq_of_beq hdeclaration⟩

/-- A handler that shadows a constant by a name inside a pattern. -/
def shadowedText : String :=
  "const s = 404\napp.get('/', c => \x7b const \x7b s \x7d = f(); return c.json(1, s) \x7d)\n"

/-- **A declaration that is shadowed**: the handler binds the name of the status, by a pattern, and what
is found is the constant outside. -/
theorem declaration_of_shadowed : ∃ root c b d, parse .plain shadowedText = some root ∧
    Within root c ∧ c.kind = .identifier ∧ c.text = "s" ∧ c.binder? = some b ∧
    (b.bindings c.text).map text = ["\x7b s \x7d = f()"] ∧
    c.declaration? = some d ∧ d.text = "s = 404" ∧ d ∉ b.bindings c.text := by
  have hspec : ((parse .plain shadowedText).any fun root =>
      (root.nth 47).kind == .identifier && (root.nth 47).text == "s" &&
      ((root.nth 47).binder?.any fun b =>
        (b.bindings (root.nth 47).text).map text == ["\x7b s \x7d = f()"]) &&
      ((root.nth 47).declaration?.any (·.text == "s = 404"))) = true := by
    decide +kernel
  obtain ⟨root, hparse, hroot⟩ := (Option.any_eq_true _ _).1 hspec
  simp only [Bool.and_eq_true] at hroot
  obtain ⟨⟨⟨hkind, htext⟩, hbinder⟩, hdeclaration⟩ := hroot
  obtain ⟨b, hb, hbindings⟩ := (Option.any_eq_true _ _).1 hbinder
  obtain ⟨d, hd, hfound⟩ := (Option.any_eq_true _ _).1 hdeclaration
  have hnot : d ∉ b.bindings (root.nth 47).text := by
    intro hmem
    have hmap := List.mem_map_of_mem (f := text) hmem
    rw [eq_of_beq hbindings, eq_of_beq hfound] at hmap
    exact absurd hmap (by decide)
  exact ⟨root, _, b, d, hparse, within_nth root 47, eq_of_beq hkind, eq_of_beq htext, hb,
    eq_of_beq hbindings, hd, eq_of_beq hfound, hnot⟩

end Cursor

end RouteScribe.Source
