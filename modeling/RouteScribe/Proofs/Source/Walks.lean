import RouteScribe.Proofs.Source.Within

/-!
# The walk with a stack

What the stack of a walk still has to give is the preorder of its first node, then that of the second,
and so on (`Cursor.walkStack_eq`).  Each step gives the first of these nodes and leaves the others, so
the walk from a node is its preorder, whatever the bound, if only it is large enough.

Two parts of a node may be equal, so a node is told apart by its *address*: the numbers of the parts to
step down to.  The addresses of a tree are the lists of numbers that lead to a node, and preorder is
their lexicographic order (`Node.pairwise_addresses`).
-/

namespace RouteScribe.Source

namespace Cursor

variable {c : Cursor} {stack : List Cursor} {n : Nat}

/-! ## The stack -/

lemma preorderAll_eq (above : List Node) (ns : List Node) :
    preorderAll above ns = ns.flatMap (preorderFrom above) := by
  induction ns with
  | nil => rfl
  | cons n rest ih => rw [preorderAll, ih, List.flatMap_cons]

/-- A node comes before its parts, and these come one after the other. -/
lemma preorder_eq (c : Cursor) : c.preorder = c :: c.children.flatMap preorder := by
  obtain ⟨⟨kind, role, start, stop, text, parts⟩, above⟩ := c
  rw [preorder, preorderFrom, preorderAll_eq, children, List.flatMap_map]
  rfl

lemma sum_size_children (c : Cursor) : (c.children.map size).sum + 1 = c.size := by
  rw [children, List.map_map, size, Node.size_eq, Node.sizeAll_eq_sum]
  rfl

/-- What a stack gives is what its nodes give in preorder, one after the other. -/
lemma walkStack_eq (h : (stack.map size).sum ≤ n) :
    walkStack n stack = stack.flatMap preorder := by
  induction n generalizing stack with
  | zero =>
    cases stack with
    | nil => rfl
    | cons c rest =>
      rw [List.map_cons, List.sum_cons] at h
      have hpos : 0 < c.size := c.node.size_pos
      omega
  | succ n ih =>
    cases stack with
    | nil => rfl
    | cons c rest =>
      have hsize : ((c.children ++ rest).map size).sum ≤ n := by
        have hparts := c.sum_size_children
        rw [List.map_cons, List.sum_cons] at h
        rw [List.map_append, List.sum_append]
        omega
      rw [walkStack, ih hsize, List.flatMap_append, List.flatMap_cons, preorder_eq c, List.cons_append]

/-- Any bound that is not smaller than the tree gives the whole preorder. -/
lemma walkStack_eq_preorder (h : c.size ≤ n) : walkStack n [c] = c.preorder := by
  have hwalk : walkStack n [c] = [c].flatMap preorder := walkStack_eq (by simpa using h)
  rw [hwalk, List.flatMap_singleton]

/-- **The walk with a stack is the preorder.** -/
theorem walk_eq_preorder (c : Cursor) : c.walk = c.preorder := walkStack_eq_preorder le_rfl

end Cursor

/-! ## Addresses -/

/-- The node at an address below a node. -/
def Cursor.at? (c : Cursor) : List Nat → Option Cursor
  | [] => some c
  | i :: address => c.node.children[i]?.bind fun n => (c.down n).at? address

namespace Node

mutual

/-- The addresses of the nodes of a tree, in preorder. -/
def addresses : Node → List (List Nat)
  | ⟨_, _, _, _, _, children⟩ => [] :: addressesFrom 0 children

/-- The addresses of the nodes of a list of trees, the first of which has a number. -/
def addressesFrom (i : Nat) : List Node → List (List Nat)
  | [] => []
  | n :: rest => n.addresses.map (i :: ·) ++ addressesFrom (i + 1) rest

end

lemma addresses_eq (n : Node) : n.addresses = [] :: addressesFrom 0 n.children := by
  cases n
  rfl

lemma cons_mem_addressesFrom {i j : Nat} {ns : List Node} {n : Node} {a : List Nat}
    (hn : ns[j]? = some n) (ha : a ∈ n.addresses) : (i + j) :: a ∈ addressesFrom i ns := by
  induction ns generalizing i j with
  | nil => cases hn
  | cons m rest ih =>
    rw [addressesFrom, List.mem_append]
    cases j with
    | zero =>
      cases hn
      exact .inl (List.mem_map_of_mem ha)
    | succ j =>
      have hmem : (i + 1 + j) :: a ∈ addressesFrom (i + 1) rest := ih hn
      rw [Nat.add_right_comm] at hmem
      exact .inr hmem

lemma exists_of_mem_addressesFrom {i : Nat} {ns : List Node} {a : List Nat}
    (h : a ∈ addressesFrom i ns) : ∃ j b, i ≤ j ∧ a = j :: b := by
  induction ns generalizing i with
  | nil => cases h
  | cons n rest ih =>
    rw [addressesFrom, List.mem_append] at h
    rcases h with h | h
    · obtain ⟨b, -, rfl⟩ := List.mem_map.1 h
      exact ⟨i, b, le_rfl, rfl⟩
    · obtain ⟨j, b, hj, rfl⟩ := ih h
      exact ⟨j, b, by omega, rfl⟩

mutual

/-- Preorder goes through the addresses in lexicographic order. -/
lemma pairwise_addresses (n : Node) : n.addresses.Pairwise (· < ·) := by
  match n with
  | ⟨_, _, _, _, _, children⟩ =>
    refine List.pairwise_cons.2 ⟨fun a ha => ?_, pairwise_addressesFrom 0 children⟩
    obtain ⟨j, b, -, rfl⟩ := exists_of_mem_addressesFrom ha
    exact List.nil_lt_cons j b

lemma pairwise_addressesFrom (i : Nat) (ns : List Node) :
    (addressesFrom i ns).Pairwise (· < ·) := by
  match ns with
  | [] => exact .nil
  | n :: rest =>
    refine List.pairwise_append.2 ⟨?_, pairwise_addressesFrom (i + 1) rest, fun a ha b hb => ?_⟩
    · refine List.pairwise_map.2 ((pairwise_addresses n).imp fun h => ?_)
      exact List.cons_lt_cons_iff.2 (.inr ⟨rfl, h⟩)
    · obtain ⟨a, -, rfl⟩ := List.mem_map.1 ha
      obtain ⟨j, b, hj, rfl⟩ := exists_of_mem_addressesFrom hb
      exact List.cons_lt_cons_iff.2 (.inl (by omega))

end

end Node

namespace Cursor

open Node

mutual

/-- Preorder gives the nodes at the addresses of a tree. -/
lemma preorderFrom_addresses (above : List Node) (n : Node) :
    (preorderFrom above n).map some = n.addresses.map (at? ⟨n, above⟩) := by
  match n with
  | ⟨kind, role, start, stop, text, children⟩ =>
    rw [preorderFrom, addresses, List.map_cons, List.map_cons]
    congr 1
    exact preorderAll_addresses (c := ⟨⟨kind, role, start, stop, text, children⟩, above⟩) children
      (List.drop_zero).symm

lemma preorderAll_addresses {c : Cursor} {i : Nat} (ns : List Node)
    (h : ns = c.node.children.drop i) :
    (preorderAll (c.node :: c.above) ns).map some = (addressesFrom i ns).map c.at? := by
  match ns with
  | [] => rfl
  | n :: rest =>
    have hn : c.node.children[i]? = some n := by
      rw [← List.head?_drop, ← h, List.head?_cons]
    have hrest : rest = c.node.children.drop (i + 1) := by
      rw [← List.tail_drop, ← h, List.tail_cons]
    rw [preorderAll, addressesFrom, List.map_append, List.map_append, List.map_map,
      preorderFrom_addresses (c.node :: c.above) n, preorderAll_addresses rest hrest]
    congr 1
    refine List.map_congr_left fun a _ => ?_
    rw [Function.comp_apply, at?, hn, Option.bind_some]
    rfl

end

/-- The addresses of a tree are the lists of numbers that lead to a node. -/
lemma mem_addresses_iff {c : Cursor} {a : List Nat} :
    a ∈ c.node.addresses ↔ (c.at? a).isSome = true := by
  constructor
  · intro ha
    have hmem : c.at? a ∈ c.preorder.map some := by
      rw [preorder, preorderFrom_addresses]
      exact List.mem_map_of_mem ha
    obtain ⟨d, -, hd⟩ := List.mem_map.1 hmem
    rw [← hd, Option.isSome_some]
  · intro ha
    rw [addresses_eq]
    induction a generalizing c with
    | nil => exact List.mem_cons_self
    | cons i a ih =>
      rw [at?] at ha
      rcases hn : c.node.children[i]? with - | n
      · rw [hn] at ha
        cases ha
      · rw [hn, Option.bind_some] at ha
        have hbelow : a ∈ n.addresses := by
          rw [addresses_eq]
          exact ih ha
        have hmem := cons_mem_addressesFrom (i := 0) hn hbelow
        rw [Nat.zero_add] at hmem
        exact List.mem_cons_of_mem _ hmem

/-- **A walk visits every node once, in preorder**: it gives the nodes at all addresses, and these are
in strictly increasing order. -/
theorem walk_addresses (c : Cursor) :
    c.walk.map some = c.node.addresses.map c.at? ∧ c.node.addresses.Pairwise (· < ·) ∧
      ∀ a, a ∈ c.node.addresses ↔ (c.at? a).isSome = true := by
  refine ⟨?_, pairwise_addresses c.node, fun a => mem_addresses_iff⟩
  rw [walk_eq_preorder]
  exact preorderFrom_addresses c.above c.node

end Cursor

end RouteScribe.Source
