import Mathlib.Tactic
import RouteScribe.Source.Scope

/-!
# Nodes in a tree

`Within root c` says that the cursor `c` stands in the tree of `root`: it is the root, or a step down
from a cursor of the tree.  Every way to go from one node to another that the analysis has, to parts,
outward to a declaration, through wrappers and along a walk, stays in the tree.  A tree has finitely
many nodes (`Within.mem_preorder`), and a part is smaller than the node it is a part of.
-/

namespace RouteScribe.Source

/-! ## Sizes -/

namespace Node

lemma size_eq (n : Node) : n.size = sizeAll n.children + 1 := by
  cases n
  rfl

lemma size_pos (n : Node) : 0 < n.size := by
  rw [size_eq]
  omega

lemma sizeAll_eq_sum (ns : List Node) : sizeAll ns = (ns.map size).sum := by
  induction ns with
  | nil => rfl
  | cons n rest ih => rw [sizeAll, ih, List.map_cons, List.sum_cons]

lemma size_le_sizeAll {n : Node} {ns : List Node} (h : n ∈ ns) : n.size ≤ sizeAll ns := by
  rw [sizeAll_eq_sum]
  exact List.single_le_sum (fun _ _ => Nat.zero_le _) _ (List.mem_map_of_mem h)

lemma size_lt_of_mem_children {m n : Node} (h : m ∈ n.children) : m.size < n.size := by
  have hle := size_le_sizeAll h
  rw [size_eq n]
  omega

lemma sizeAll_le_of_sublist {ms ns : List Node} (h : ms.Sublist ns) : sizeAll ms ≤ sizeAll ns := by
  rw [sizeAll_eq_sum, sizeAll_eq_sum]
  exact (h.map size).sum_le_sum fun _ _ => Nat.zero_le _

lemma sizeAll_named_lt (n : Node) : sizeAll n.named < n.size := by
  have hle : sizeAll n.named ≤ sizeAll n.children := sizeAll_le_of_sublist List.filter_sublist
  rw [size_eq]
  omega

end Node

/-- A cursor stands in the tree of a root. -/
inductive Within (root : Node) : Cursor → Prop
  | root : Within root (.ofRoot root)
  | down {c : Cursor} {n : Node} : Within root c → n ∈ c.node.children → Within root (c.down n)

namespace Cursor

variable {c d : Cursor} {role : Role}

/-- The size of a node in its place. -/
def size (c : Cursor) : Nat := c.node.size

lemma exists_of_mem_named (h : d ∈ c.named) : ∃ n ∈ c.node.children, d = c.down n := by
  obtain ⟨n, hn, rfl⟩ := List.mem_map.1 h
  exact ⟨n, (List.mem_filter.1 hn).1, rfl⟩

lemma exists_of_child? (h : c.child? role = some d) : ∃ n ∈ c.node.children, d = c.down n := by
  obtain ⟨n, hn, rfl⟩ := Option.map_eq_some_iff.1 h
  exact ⟨n, List.mem_of_find?_eq_some hn, rfl⟩

lemma size_lt_of_mem_named (h : d ∈ c.named) : d.size < c.size := by
  obtain ⟨n, hn, rfl⟩ := exists_of_mem_named h
  exact Node.size_lt_of_mem_children hn

lemma size_lt_of_child? (h : c.child? role = some d) : d.size < c.size := by
  obtain ⟨n, hn, rfl⟩ := exists_of_child? h
  exact Node.size_lt_of_mem_children hn

lemma mem_named_of_wrapped? (h : c.wrapped? = some d) : d ∈ c.named := by
  unfold wrapped? at h
  split at h
  · cases h
  · split at h
    · exact List.mem_of_getLast? h
    · exact List.mem_of_head? h

lemma size_unwrapFrom_le (n : Nat) (c : Cursor) : (c.unwrapFrom n).size ≤ c.size := by
  induction n generalizing c with
  | zero => exact le_rfl
  | succ n ih =>
    rw [unwrapFrom]
    split
    · rename_i inner hinner
      exact (ih inner).trans (size_lt_of_mem_named (mem_named_of_wrapped? hinner)).le
    · exact le_rfl

lemma size_unwrap_le (c : Cursor) : c.unwrap.size ≤ c.size := size_unwrapFrom_le _ c

/-- Any bound that is not smaller than the expression removes all wrappers. -/
lemma unwrapFrom_eq_unwrap {n : Nat} (h : c.size ≤ n) : c.unwrapFrom n = c.unwrap := by
  unfold unwrap
  change c.unwrapFrom n = c.unwrapFrom c.size
  generalize hm : c.size = m at h
  have hle : c.size ≤ m := hm.le
  clear hm
  induction n generalizing c m with
  | zero =>
    rw [Nat.le_zero.1 h]
  | succ n ih =>
    have hpos : 0 < c.size := c.node.size_pos
    obtain ⟨m, rfl⟩ : ∃ k, m = k + 1 := ⟨m - 1, by omega⟩
    rw [unwrapFrom, unwrapFrom]
    split
    · rename_i inner hinner
      have hlt := size_lt_of_mem_named (mem_named_of_wrapped? hinner)
      exact ih m (by omega) (by omega)
    · rfl

lemma unwrap_of_wrapped? (h : c.wrapped? = some d) : c.unwrap = d.unwrap := by
  have hlt := size_lt_of_mem_named (mem_named_of_wrapped? h)
  have hsize : c.node.size = c.node.size - 1 + 1 := (Nat.succ_pred_eq_of_pos c.node.size_pos).symm
  rw [unwrap, hsize, unwrapFrom, h]
  exact unwrapFrom_eq_unwrap (Nat.le_pred_of_lt hlt)

/-- An expression of a kind that is no wrapper is left as it is. -/
lemma unwrap_of_kind (h : c.kind.isWrapper = false) : c.unwrap = c := by
  have hwrapped : c.wrapped? = none := by
    rw [wrapped?, h]
    rfl
  rw [unwrap]
  cases c.node.size with
  | zero => rfl
  | succ n => rw [unwrapFrom, hwrapped]

/-- What holds inside the wrappers of an expression, and goes through wrappers, holds of it. -/
lemma of_unwrap {P : Cursor → Prop} (hwrapped : ∀ c d, c.wrapped? = some d → P d → P c)
    (h : P c.unwrap) : P c := by
  unfold unwrap at h
  generalize c.node.size = n at h
  induction n generalizing c with
  | zero => exact h
  | succ n ih =>
    rw [unwrapFrom] at h
    split at h
    · rename_i inner hinner
      exact hwrapped c inner hinner (ih h)
    · exact h

lemma size_lt_of_mem_callArguments (h : d ∈ c.callArguments) : d.size < c.size := by
  unfold callArguments at h
  split at h
  · rename_i args hargs
    split at h
    · exact (size_lt_of_mem_named h).trans (size_lt_of_child? hargs)
    · cases h
  · cases h

lemma size_lt_of_calledMember? {name : String} (h : c.calledMember? = some (name, d)) :
    d.size < c.size := by
  obtain ⟨callee, hcallee, hmember⟩ := Option.bind_eq_some_iff.1 h
  obtain ⟨name', -, hobject⟩ := Option.bind_eq_some_iff.1 hmember
  obtain ⟨d', hd', heq⟩ := Option.bind_eq_some_iff.1 hobject
  cases heq
  exact (size_lt_of_child? hd').trans (size_lt_of_child? hcallee)

/-- Parts that stand beside each other are smaller together than the node they are parts of. -/
lemma sum_size_named_lt (c : Cursor) : (c.named.map size).sum < c.size := by
  have hsum : (c.named.map size).sum = Node.sizeAll c.node.named := by
    rw [named, List.map_map, Node.sizeAll_eq_sum]
    rfl
  rw [hsum]
  exact Node.sizeAll_named_lt c.node

lemma sum_size_filter_named_lt (c : Cursor) (test : Cursor → Bool) :
    ((c.named.filter test).map size).sum < c.size :=
  lt_of_le_of_lt ((List.filter_sublist.map size).sum_le_sum fun _ _ => Nat.zero_le _)
    (sum_size_named_lt c)

lemma sum_size_flatMap_named_le (cs : List Cursor) :
    ((cs.flatMap named).map size).sum ≤ (cs.map size).sum := by
  induction cs with
  | nil => exact le_rfl
  | cons c rest ih =>
    have hnamed := c.sum_size_named_lt
    simp only [List.flatMap_cons, List.map_append, List.sum_append, List.map_cons, List.sum_cons]
    omega

end Cursor

namespace Within

variable {root : Node} {c d : Cursor} {role : Role}

/-! ## Parts and wrappers -/

lemma named (h : Within root c) (hd : d ∈ c.named) : Within root d := by
  obtain ⟨n, hn, rfl⟩ := Cursor.exists_of_mem_named hd
  exact h.down hn

lemma child (h : Within root c) (hd : c.child? role = some d) : Within root d := by
  obtain ⟨n, hn, rfl⟩ := Cursor.exists_of_child? hd
  exact h.down hn

lemma children (h : Within root c) (hd : d ∈ c.children) : Within root d := by
  obtain ⟨n, hn, rfl⟩ := List.mem_map.1 hd
  exact h.down hn

lemma unwrapFrom (h : Within root c) (n : Nat) : Within root (c.unwrapFrom n) := by
  induction n generalizing c with
  | zero => exact h
  | succ n ih =>
    rw [Cursor.unwrapFrom]
    split
    · rename_i inner hinner
      exact ih (h.named (Cursor.mem_named_of_wrapped? hinner))
    · exact h

lemma unwrap (h : Within root c) : Within root c.unwrap := h.unwrapFrom _

lemma arguments (h : Within root c) (hd : d ∈ c.callArguments) : Within root d := by
  unfold Cursor.callArguments at hd
  split at hd
  · rename_i args hargs
    split at hd
    · exact (h.child hargs).named hd
    · cases hd
  · cases hd

lemma member {name : String} (h : Within root c) (hd : c.member? = some (name, d)) :
    Within root d := by
  unfold Cursor.member? at hd
  obtain ⟨name', -, hobject⟩ := Option.bind_eq_some_iff.1 hd
  obtain ⟨d', hd', heq⟩ := Option.bind_eq_some_iff.1 hobject
  cases heq
  exact h.child hd'

lemma calledMember {name : String} (h : Within root c) (hd : c.calledMember? = some (name, d)) :
    Within root d := by
  obtain ⟨callee, hcallee, hmember⟩ := Option.bind_eq_some_iff.1 hd
  exact (h.child hcallee).member hmember

/-! ## Walks -/

lemma walkStack {n : Nat} {stack : List Cursor} (h : ∀ c ∈ stack, Within root c)
    (hd : d ∈ Cursor.walkStack n stack) : Within root d := by
  induction n generalizing stack with
  | zero => cases hd
  | succ n ih =>
    match stack with
    | [] => cases hd
    | c :: rest =>
      have hc : Within root c := h c List.mem_cons_self
      rcases List.mem_cons.1 hd with rfl | hd
      · exact hc
      · refine ih (fun e he => ?_) hd
        rcases List.mem_append.1 he with he | he
        · exact hc.children he
        · exact h e (List.mem_cons_of_mem _ he)

/-- A walk from a node of the tree stays in the tree. -/
lemma walk (h : Within root c) (hd : d ∈ c.walk) : Within root d := by
  refine walkStack (fun e he => ?_) hd
  rw [List.mem_singleton.1 he]
  exact h

/-! ## Declarations -/

/-- The nodes above a node of the tree are in the tree. -/
lemma above {n m : Node} {rest : List Node} (h : Within root ⟨n, m :: rest⟩) :
    Within root ⟨m, rest⟩ := by
  generalize hc : (⟨n, m :: rest⟩ : Cursor) = c at h
  cases h with
  | root => cases hc
  | down hc' _ =>
    obtain ⟨-, hrest⟩ := Cursor.mk.inj hc
    obtain ⟨rfl, rfl⟩ := List.cons.inj hrest
    exact hc'

lemma parameter {name : String} (h : Within root c) (hd : c.parameter? name = some d) :
    Within root d := by
  simp only [Cursor.parameter?, Option.orElse_eq_orElse, Option.orElse_eq_or] at hd
  rcases Option.or_eq_some_iff.1 hd with hsingle | ⟨-, hlisted⟩
  · exact h.child (Option.filter_eq_some_iff.1 hsingle).1
  · obtain ⟨ps, hps, hfind⟩ := Option.bind_eq_some_iff.1 hlisted
    exact (h.child hps).named (List.mem_of_find?_eq_some hfind)

lemma exported (h : Within root c) : Within root c.exported := by
  unfold Cursor.exported
  split
  · rcases hd : c.child? .declaration with - | d
    · exact h
    · exact h.child hd
  · exact h

lemma declares {name : String} (h : Within root c) (hd : c.declares? name = some d) :
    Within root d := by
  unfold Cursor.declares? at hd
  split at hd
  · exact h.named (List.mem_of_find?_eq_some hd)
  · split at hd
    · split at hd
      · cases hd
        exact h
      · cases hd
    · cases hd

lemma declaredIn {name : String} (h : Within root c) (hd : c.declaredIn? name = some d) :
    Within root d := by
  simp only [Cursor.declaredIn?, Option.orElse_eq_orElse, Option.orElse_eq_or] at hd
  rcases Option.or_eq_some_iff.1 hd with hbound | ⟨-, hdeclared⟩
  · split at hbound
    · exact h.parameter hbound
    · cases hbound
  · obtain ⟨child, hchild, hdeclares⟩ := List.exists_of_findSome?_eq_some hdeclared
    exact (h.named hchild).exported.declares hdeclares

lemma declaredAbove {name : String} {n : Node} {nodes : List Node} (h : Within root ⟨n, nodes⟩)
    (hd : Cursor.declaredAbove? name nodes = some d) : Within root d := by
  induction nodes generalizing n with
  | nil => cases hd
  | cons m rest ih =>
    rw [Cursor.declaredAbove?] at hd
    split at hd
    · rename_i d' hd'
      cases hd
      exact h.above.declaredIn hd'
    · exact ih h.above hd

/-- The declaration of a name is in the tree. -/
lemma declaration (h : Within root c) (hd : c.declaration? = some d) : Within root d :=
  h.declaredAbove hd

lemma initializer (h : Within root c) (hd : c.initializer? = some d) : Within root d := by
  unfold Cursor.initializer? at hd
  simp only [Option.bind_eq_bind] at hd
  split at hd
  · simp at hd
  · obtain ⟨-, -, hd⟩ := Option.bind_eq_some_iff.1 hd
    obtain ⟨e, he, hd⟩ := Option.bind_eq_some_iff.1 hd
    split at hd
    · exact (h.unwrap.declaration he).child hd
    · cases hd

lemma declaredFunction (h : Within root c) (hd : c.declaredFunction? = some d) :
    Within root d := by
  unfold Cursor.declaredFunction? at hd
  split at hd
  · cases hd
    exact h
  · split at hd
    · obtain ⟨hmap, -⟩ := Option.filter_eq_some_iff.1 hd
      obtain ⟨value, hvalue, rfl⟩ := Option.map_eq_some_iff.1 hmap
      exact (h.child hvalue).unwrap
    · cases hd

lemma function (h : Within root c) (hd : c.function? = some d) : Within root d := by
  unfold Cursor.function? at hd
  simp only [Option.bind_eq_bind] at hd
  split at hd
  · cases hd
    exact h.unwrap
  · split at hd
    · simp at hd
    · obtain ⟨-, -, hd⟩ := Option.bind_eq_some_iff.1 hd
      obtain ⟨e, he, hd⟩ := Option.bind_eq_some_iff.1 hd
      exact (h.unwrap.declaration he).declaredFunction hd

/-- A chain of variables ends in the tree. -/
lemma followFrom {n : Nat} {seen : List Cursor.Key} (h : Within root c)
    (hd : Cursor.followFrom n seen c = .name d) : Within root d := by
  induction n generalizing c seen with
  | zero => cases hd
  | succ n ih =>
    rw [Cursor.followFrom] at hd
    split at hd
    · cases hd
    · split at hd
      · cases hd
      · split at hd
        · cases hd
        · split at hd
          · rename_i value hvalue
            exact ih (h.initializer hvalue).unwrap hd
          · cases hd
            exact h

lemma follow (h : Within root c) (hd : c.follow = .name d) : Within root d := h.unwrap.followFrom hd

end Within

/-! ## The nodes of a tree -/

namespace Cursor

mutual

/-- The parts of a node of a tree are nodes of the tree. -/
lemma down_mem_preorderFrom {above : List Node} {n : Node} {c : Cursor} {m : Node}
    (hc : c ∈ preorderFrom above n) (hm : m ∈ c.node.children) :
    c.down m ∈ preorderFrom above n := by
  match n with
  | ⟨kind, role, start, stop, text, children⟩ =>
    rw [preorderFrom] at hc ⊢
    rcases List.mem_cons.1 hc with rfl | hc
    · exact List.mem_cons_of_mem _ (mem_preorderAll hm)
    · exact List.mem_cons_of_mem _ (down_mem_preorderAll hc hm)

lemma down_mem_preorderAll {above : List Node} {ns : List Node} {c : Cursor} {m : Node}
    (hc : c ∈ preorderAll above ns) (hm : m ∈ c.node.children) :
    c.down m ∈ preorderAll above ns := by
  match ns with
  | [] => cases hc
  | n :: rest =>
    rw [preorderAll, List.mem_append] at hc ⊢
    rcases hc with hc | hc
    · exact .inl (down_mem_preorderFrom hc hm)
    · exact .inr (down_mem_preorderAll hc hm)

lemma mem_preorderAll {above : List Node} {ns : List Node} {m : Node} (hm : m ∈ ns) :
    ⟨m, above⟩ ∈ preorderAll above ns := by
  match ns with
  | [] => cases hm
  | n :: rest =>
    rw [preorderAll, List.mem_append]
    rcases List.mem_cons.1 hm with rfl | hm
    · left
      cases m
      exact List.mem_cons_self
    · exact .inr (mem_preorderAll hm)

end

end Cursor

/-- Every node of a tree is met in preorder. -/
theorem Within.mem_preorder {root : Node} {c : Cursor} (h : Within root c) :
    c ∈ (Cursor.ofRoot root).preorder := by
  induction h with
  | root =>
    cases root
    exact List.mem_cons_self
  | down _ hn ih => exact Cursor.down_mem_preorderFrom ih hn

/-- A node of a tree by its place in the order of the text; beyond the last it is the root. -/
def Node.nth (root : Node) (i : Nat) : Cursor :=
  ((Cursor.ofRoot root).walk[i]?).getD (.ofRoot root)

lemma within_nth (root : Node) (i : Nat) : Within root (root.nth i) := by
  unfold Node.nth
  rcases hc : (Cursor.ofRoot root).walk[i]? with - | c
  · exact .root
  · exact Within.root.walk (List.mem_of_getElem? hc)

/-- The keys of the nodes of a tree. -/
def Node.keys (root : Node) : Finset Cursor.Key :=
  ((Cursor.ofRoot root).preorder.map Cursor.key).toFinset

lemma Within.key_mem {root : Node} {c : Cursor} (h : Within root c) : c.key ∈ root.keys :=
  List.mem_toFinset.2 (List.mem_map_of_mem h.mem_preorder)

/-- No node is larger than the tree. -/
lemma Within.size_le {root : Node} {c : Cursor} (h : Within root c) : c.size ≤ root.size := by
  induction h with
  | root => exact le_rfl
  | down _ hn ih => exact (Node.size_lt_of_mem_children hn).le.trans ih

end RouteScribe.Source
