import RouteScribe.Proofs.Source.Walks

/-!
# Chains of variables

A name leads to the initial value of its variable, that may be a name again, and so on.  `Cursor.next?`
is one step of this, and since it is a function, a chain that ends never comes back to where it was
(`not_transGen_of_ends`), and a chain in a tree, that has finitely many nodes, ends or comes back
(`ends_or_revisits`).  The loop that follows a chain remembers the keys of the nodes it passed, so that it
comes to an end (`follows_followFrom`).  It goes on to the end of the chain because names do not share
their keys in a tree whose nodes are placed like the pieces of a text (`Node.IsPlaced`).
-/

namespace RouteScribe.Source

open Relation

/-! ## Steps that are functions -/

section

variable {α : Type} {r : α → α → Prop} {a b c : α}

/-- A cycle goes on from each next step. -/
lemma transGen_of_step (hr : Relator.RightUnique r) (hab : r a b) (h : TransGen r a a) :
    TransGen r b b := by
  obtain ⟨b', hab', hback⟩ := TransGen.head'_iff.1 h
  obtain rfl := hr hab hab'
  exact TransGen.tail' hback hab

/-- Who ends somewhere does not come back to the start. -/
lemma not_transGen_of_ends (hr : Relator.RightUnique r) (h : ReflTransGen r a b)
    (hend : ∀ c, ¬r b c) : ¬TransGen r a a := by
  intro hcycle
  induction h using ReflTransGen.head_induction_on with
  | refl =>
    obtain ⟨c, hc, -⟩ := TransGen.head'_iff.1 hcycle
    exact hend c hc
  | head hstep _ ih => exact ih (transGen_of_step hr hstep hcycle)

/-- Two ends of one start are the same. -/
lemma end_unique (hr : Relator.RightUnique r) (hb : ReflTransGen r a b) (hc : ReflTransGen r a c)
    (hbend : ∀ d, ¬r b d) (hcend : ∀ d, ¬r c d) : b = c := by
  rcases ReflTransGen.total_of_right_unique hr hb hc with h | h
  · rcases h.cases_head with heq | ⟨d, hd, -⟩
    · exact heq
    · exact absurd hd (hbend d)
  · rcases h.cases_head with heq | ⟨d, hd, -⟩
    · exact heq.symm
    · exact absurd hd (hcend d)

end

/-! ## Places of nodes -/

namespace Node

/-- A node is placed as a piece of text: its parts stand inside it and one behind the other, keywords,
punctuation and names have no parts, a name has characters, and what is in parentheses stands behind the
first of them. -/
structure Fits (n : Node) : Prop where
  ordered : n.children.Pairwise fun m m' => m.stop ≤ m'.start
  inside : ∀ m ∈ n.children, n.start ≤ m.start ∧ m.stop ≤ n.stop
  token : n.kind = .token → n.children = []
  name : n.kind = .identifier → n.children = [] ∧ n.start < n.stop
  bracketed : n.kind = .parenthesized → n.start < n.stop ∧ ∀ m ∈ n.named, n.start < m.start

instance (n : Node) : Decidable n.Fits :=
  decidable_of_iff (n.children.Pairwise (fun m m' => m.stop ≤ m'.start) ∧
    (∀ m ∈ n.children, n.start ≤ m.start ∧ m.stop ≤ n.stop) ∧
    (n.kind = .token → n.children = []) ∧
    (n.kind = .identifier → n.children = [] ∧ n.start < n.stop) ∧
    (n.kind = .parenthesized → n.start < n.stop ∧ ∀ m ∈ n.named, n.start < m.start))
    ⟨fun ⟨h₁, h₂, h₃, h₄, h₅⟩ => ⟨h₁, h₂, h₃, h₄, h₅⟩,
      fun ⟨h₁, h₂, h₃, h₄, h₅⟩ => ⟨h₁, h₂, h₃, h₄, h₅⟩⟩

/-- One node stands behind the other. -/
def Apart (m m' : Node) : Prop := m.stop ≤ m'.start ∨ m'.stop ≤ m.start

instance : Std.Symm Apart := ⟨fun _ _ => Or.symm⟩

/-- All nodes of a tree are placed as pieces of one text. -/
def IsPlaced (root : Node) : Prop := ∀ c ∈ (Cursor.ofRoot root).preorder, c.node.Fits

instance (root : Node) : Decidable root.IsPlaced :=
  inferInstanceAs (Decidable (∀ c ∈ (Cursor.ofRoot root).preorder, c.node.Fits))

end Node

namespace Cursor

/-- The forms of nodes that the chains below go through. -/
def IsStation (c : Cursor) : Prop := c.kind = .identifier ∨ c.kind = .parenthesized

lemma IsStation.lt {c : Cursor} (h : c.IsStation) (hfits : c.node.Fits) :
    c.node.start < c.node.stop :=
  h.elim (fun h => (hfits.name h).2) fun h => (hfits.bracketed h).1

variable {c d e : Cursor}

/-- Nodes below a node are below one of its parts, or are the node. -/
lemma mem_preorder_iff : d ∈ c.preorder ↔ d = c ∨ ∃ m ∈ c.children, d ∈ m.preorder := by
  rw [preorder_eq, List.mem_cons, List.mem_flatMap]

lemma size_lt_of_mem_children (h : d ∈ c.children) : d.size < c.size := by
  obtain ⟨n, hn, rfl⟩ := List.mem_map.1 h
  exact Node.size_lt_of_mem_children hn

/-- What holds of a node if it holds of its parts, holds of all nodes. -/
lemma inductionOnParts {P : Cursor → Prop} (h : ∀ c, (∀ m ∈ c.children, P m) → P c) (c : Cursor) :
    P c := by
  induction hsize : c.size using Nat.strong_induction_on generalizing c with
  | _ n ih => exact h c fun m hm => ih m.size (hsize ▸ size_lt_of_mem_children hm) m rfl

/-- The nodes below a node stand inside it. -/
lemma inside_of_mem_preorder (hplaced : ∀ d ∈ c.preorder, d.node.Fits) (hd : d ∈ c.preorder) :
    c.node.start ≤ d.node.start ∧ d.node.stop ≤ c.node.stop := by
  induction c using inductionOnParts with
  | _ c ih =>
    rcases mem_preorder_iff.1 hd with rfl | ⟨m, hm, hbelow⟩
    · exact ⟨le_rfl, le_rfl⟩
    · obtain ⟨hstart, hstop⟩ := ih m hm
        (fun d hd => hplaced d (mem_preorder_iff.2 (.inr ⟨m, hm, hd⟩))) hbelow
      obtain ⟨n, hn, rfl⟩ := List.mem_map.1 hm
      obtain ⟨hstart', hstop'⟩ := (hplaced c (mem_preorder_iff.2 (.inl rfl))).inside n hn
      exact ⟨hstart'.trans hstart, hstop.trans hstop'⟩

/-- No node strictly below a name or parentheses has the same key. -/
lemma key_ne_of_below (hplaced : ∀ d ∈ c.preorder, d.node.Fits) (hstation : c.IsStation) {m : Cursor}
    (hm : m ∈ c.children) (hd : d ∈ m.preorder) : c.key ≠ d.key := by
  intro hkey
  obtain ⟨hstart, hrest⟩ := Prod.mk.inj hkey
  have hkind : c.kind = d.kind := (Prod.mk.inj hrest).2
  have hfits := hplaced c (mem_preorder_iff.2 (.inl rfl))
  have hbelow : ∀ d ∈ m.preorder, d.node.Fits := fun d hd =>
    hplaced d (mem_preorder_iff.2 (.inr ⟨m, hm, hd⟩))
  obtain ⟨n, hn, rfl⟩ := List.mem_map.1 hm
  rcases hstation with hname | hbracketed
  · rw [(hfits.name hname).1] at hn
    cases hn
  · by_cases htoken : n.kind = .token
    · -- a bracket has no parts, so that the node is the bracket, and of another form
      have hleaf : (c.down n).children = [] := by
        rw [children, (hbelow _ (mem_preorder_iff.2 (.inl rfl))).token htoken, List.map_nil]
      rw [preorder_eq, hleaf] at hd
      obtain rfl : d = c.down n := by simpa using hd
      rw [hbracketed] at hkind
      exact absurd (hkind.trans htoken) (by decide)
    · have hnamed : n ∈ c.node.named := List.mem_filter.2 ⟨hn, by simpa [Node.isNamed] using htoken⟩
      have hbehind := (hfits.bracketed hbracketed).2 n hnamed
      have hinside := (inside_of_mem_preorder hbelow hd).1
      have hnode : (c.down n).node.start = n.start := rfl
      omega

/-- Nodes below different parts stand one behind the other. -/
lemma key_ne_of_apart (hplaced : ∀ x ∈ e.preorder, x.node.Fits) (hstation : c.IsStation)
    {m m' : Cursor} (hm : m ∈ e.children) (hm' : m' ∈ e.children) (hne : m ≠ m')
    (hc : c ∈ m.preorder) (hd : d ∈ m'.preorder) : c.key ≠ d.key := by
  intro hkey
  have hbelow : ∀ m ∈ e.children, ∀ x ∈ m.preorder, x.node.Fits := fun m hm x hx =>
    hplaced x (mem_preorder_iff.2 (.inr ⟨m, hm, hx⟩))
  have hlt := hstation.lt (hbelow m hm c hc)
  have hstarts : c.node.start = d.node.start := (Prod.mk.inj hkey).1
  have hstops : c.node.stop = d.node.stop := (Prod.mk.inj (Prod.mk.inj hkey).2).1
  obtain ⟨hstart, hstop⟩ := inside_of_mem_preorder (hbelow m hm) hc
  obtain ⟨hstart', hstop'⟩ := inside_of_mem_preorder (hbelow m' hm') hd
  obtain ⟨n, hn, rfl⟩ := List.mem_map.1 hm
  obtain ⟨n', hn', rfl⟩ := List.mem_map.1 hm'
  have hapart : n.Apart n' := by
    have hpairwise : e.node.children.Pairwise Node.Apart :=
      (hplaced e (mem_preorder_iff.2 (.inl rfl))).ordered.imp Or.inl
    exact hpairwise.forall hn hn' fun h => hne (by rw [h])
  simp only [down] at hstart hstop hstart' hstop'
  unfold Node.Apart at hapart
  omega

/-- Names and parentheses are told apart by their keys. -/
lemma eq_of_key (hplaced : ∀ x ∈ e.preorder, x.node.Fits) (hc : c ∈ e.preorder)
    (hd : d ∈ e.preorder) (hstation : c.IsStation) (hkey : c.key = d.key) : c = d := by
  have hkind : c.kind = d.kind := (Prod.mk.inj (Prod.mk.inj hkey).2).2
  have hstation' : d.IsStation := by rwa [IsStation, ← hkind]
  induction e using inductionOnParts with
  | _ e ih =>
    have hbelow : ∀ m ∈ e.children, ∀ x ∈ m.preorder, x.node.Fits := fun m hm x hx =>
      hplaced x (mem_preorder_iff.2 (.inr ⟨m, hm, hx⟩))
    rcases mem_preorder_iff.1 hc with rfl | ⟨m, hm, hcm⟩
    · rcases mem_preorder_iff.1 hd with rfl | ⟨m, hm, hdm⟩
      · rfl
      · exact absurd hkey (key_ne_of_below hplaced hstation hm hdm)
    · rcases mem_preorder_iff.1 hd with rfl | ⟨m', hm', hdm⟩
      · exact absurd hkey.symm (key_ne_of_below hplaced hstation' hm hcm)
      · by_cases hsame : m = m'
        · subst hsame
          exact ih m hm (hbelow m hm) hcm hdm
        · exact absurd hkey (key_ne_of_apart hplaced hstation hm hm' hsame hcm hdm)

end Cursor

/-- Names and parentheses of a tree are told apart by their keys. -/
lemma Node.IsPlaced.eq_of_key {root : Node} (hroot : root.IsPlaced) {c d : Cursor}
    (hc : Within root c) (hd : Within root d) (hstation : c.IsStation) (hkey : c.key = d.key) :
    c = d :=
  Cursor.eq_of_key hroot hc.mem_preorder hd.mem_preorder hstation hkey

/-! ## Keys of nodes that were passed -/

/-- Keys are those of nodes that lead to a node by some steps. -/
def KeysBefore (root : Node) (r : Cursor → Cursor → Prop) (c : Cursor) (keys : List Cursor.Key) : Prop :=
  ∀ k ∈ keys, ∃ b, Within root b ∧ TransGen r b c ∧ b.key = k

section

variable {root : Node} {r : Cursor → Cursor → Prop} {c d : Cursor} {keys : List Cursor.Key}

lemma keysBefore_nil : KeysBefore root r c [] := fun _ hk => by cases hk

lemma KeysBefore.cons (h : KeysBefore root r c keys) (hc : Within root c) (hstep : r c d) :
    KeysBefore root r d (c.key :: keys) := by
  intro k hk
  rcases List.mem_cons.1 hk with rfl | hk
  · exact ⟨c, hc, .single hstep, rfl⟩
  · obtain ⟨b, hb, hbc, hkey⟩ := h k hk
    exact ⟨b, hb, hbc.tail hstep, hkey⟩

/-- A node that does not lead to itself was not passed, if steps start at names and parentheses only. -/
lemma KeysBefore.notMem (h : KeysBefore root r c keys) (hroot : root.IsPlaced)
    (hr : ∀ b d, r b d → b.IsStation) (hc : Within root c) (hacyclic : ¬TransGen r c c) :
    c.key ∉ keys := by
  intro hmem
  obtain ⟨b, hb, hbc, hkey⟩ := h c.key hmem
  obtain ⟨e, hbe, -⟩ := TransGen.head'_iff.1 hbc
  obtain rfl : b = c := hroot.eq_of_key hb hc (hr b e hbe) hkey
  exact hacyclic hbc

end

/-! ## Chains -/

namespace Cursor

/-- The next node on a chain of variables: the initial value of the variable that a name refers to,
without wrappers. -/
def next? (c : Cursor) : Option Cursor :=
  if c.kind = .identifier then c.initializer?.map unwrap else none

/-- One step on a chain of variables. -/
def Leads (c d : Cursor) : Prop := c.next? = some d

/-- The chain of variables from an expression ends at a node. -/
def EndsAt (c d : Cursor) : Prop := ReflTransGen Leads c.unwrap d ∧ d.next? = none

/-- The chain of variables from an expression comes back to a node that it passed. -/
def Revisits (c : Cursor) : Prop := ∃ d, ReflTransGen Leads c.unwrap d ∧ TransGen Leads d d

/-- What a chain that ends at a node gives. -/
def ending (d : Cursor) : ChainEnd :=
  match d.stringValue? with
  | some s => .string s
  | none => if d.kind = .identifier then .name d else .other

lemma rightUnique_leads : Relator.RightUnique Leads := fun _ _ _ h h' => Option.some.inj (h.symm.trans h')

lemma not_leads_of_next? {c : Cursor} (h : c.next? = none) (d : Cursor) : ¬Leads c d := by
  intro hleads
  rw [Leads, h] at hleads
  cases hleads

lemma Leads.kind {c d : Cursor} (h : Leads c d) : c.kind = .identifier := by
  unfold Leads next? at h
  split at h
  · assumption
  · cases h

lemma Leads.exists_initializer {c d : Cursor} (h : Leads c d) :
    ∃ value, c.initializer? = some value ∧ d = value.unwrap := by
  have hkind := h.kind
  rw [Leads, next?, if_pos hkind] at h
  obtain ⟨value, hvalue, rfl⟩ := Option.map_eq_some_iff.1 h
  exact ⟨value, hvalue, rfl⟩

lemma stringValue?_of_identifier {c : Cursor} (h : c.kind = .identifier) : c.stringValue? = none := by
  simp only [stringValue?, h]

/-- A chain that ends does not come back. -/
lemma EndsAt.not_revisits {c d : Cursor} (h : EndsAt c d) : ¬Revisits c := by
  rintro ⟨e, he, hcycle⟩
  have hend := not_leads_of_next? h.2
  rcases ReflTransGen.total_of_right_unique rightUnique_leads h.1 he with hde | hed
  · rcases hde.cases_head with rfl | ⟨f, hf, -⟩
    · exact not_transGen_of_ends rightUnique_leads .refl hend hcycle
    · exact hend f hf
  · exact not_transGen_of_ends rightUnique_leads hed hend hcycle

lemma EndsAt.unique {c d e : Cursor} (h : EndsAt c d) (h' : EndsAt c e) : d = e :=
  end_unique rightUnique_leads h.1 h'.1 (not_leads_of_next? h.2) (not_leads_of_next? h'.2)

lemma length_preorder (c : Cursor) : c.preorder.length = c.size := by
  induction c using inductionOnParts with
  | _ c ih =>
    have hparts : c.children.map (fun m => m.preorder.length) = c.children.map size :=
      List.map_congr_left ih
    rw [preorder_eq, List.length_cons, List.length_flatMap, hparts, sum_size_children]

end Cursor

namespace Within

open Cursor

variable {root : Node} {c d : Cursor}

lemma root_eq (h : Within root c) : c.root = root := by
  induction h with
  | root => rfl
  | @down c n _ _ ih =>
    rw [Cursor.root, Cursor.down, List.getLast?_cons, Option.getD_some]
    exact ih

lemma leads (h : Within root c) (hd : Leads c d) : Within root d := by
  obtain ⟨value, hvalue, rfl⟩ := hd.exists_initializer
  exact (h.initializer hvalue).unwrap

lemma reaches (h : Within root c) (hd : ReflTransGen Leads c d) : Within root d := by
  induction hd with
  | refl => exact h
  | tail _ hstep ih => exact ih.leads hstep

/-- Keys of nodes of a tree, each once, are no more than the nodes. -/
lemma length_le_size {keys : List Key} (hnodup : keys.Nodup)
    (hkeys : ∀ k ∈ keys, ∃ b, Within root b ∧ b.key = k) : keys.length ≤ root.size := by
  have hsub : keys ⊆ (Cursor.ofRoot root).preorder.map key := by
    intro k hk
    obtain ⟨b, hb, rfl⟩ := hkeys k hk
    exact List.mem_map_of_mem hb.mem_preorder
  have hle := (List.subperm_of_subset hnodup hsub).length_le
  rw [List.length_map, length_preorder] at hle
  exact hle

/-- The nodes of a chain, as long as it goes on. -/
lemma exists_chain (hgoes : ∀ d, ReflTransGen Leads c d → d.next? ≠ none) :
    ∃ f : ℕ → Cursor, (∀ i, ReflTransGen Leads c (f i)) ∧ ∀ i, Leads (f i) (f (i + 1)) := by
  let f : ℕ → Cursor := fun i => (fun d => d.next?.getD d)^[i] c
  have hsucc (i : ℕ) : f (i + 1) = (f i).next?.getD (f i) := Function.iterate_succ_apply' _ _ _
  have hstep (i : ℕ) (h : ReflTransGen Leads c (f i)) : Leads (f i) (f (i + 1)) := by
    obtain ⟨e, he⟩ := Option.ne_none_iff_exists'.1 (hgoes (f i) h)
    rw [hsucc, he]
    exact he
  have hreach (i : ℕ) : ReflTransGen Leads c (f i) := by
    induction i with
    | zero => exact .refl
    | succ i ih => exact ih.tail (hstep i ih)
  exact ⟨f, hreach, fun i => hstep i (hreach i)⟩

/-- **A chain in a tree ends or comes back**: the tree has finitely many nodes. -/
theorem ends_or_revisits (h : Within root c) : (∃ d, EndsAt c d) ∨ Revisits c := by
  by_cases hend : ∃ d, EndsAt c d
  · exact .inl hend
  · right
    obtain ⟨f, hreach, hleads⟩ := exists_chain (c := c.unwrap)
      fun d hd hnone => hend ⟨d, hd, hnone⟩
    have htrans {i j : ℕ} (hij : i < j) : TransGen Leads (f i) (f j) := by
      induction j, hij using Nat.le_induction with
      | base => exact .single (hleads i)
      | succ j _ ih => exact ih.tail (hleads j)
    let g : ℕ → {d // d ∈ (Cursor.ofRoot root).preorder} := fun i =>
      ⟨f i, (h.unwrap.reaches (hreach i)).mem_preorder⟩
    obtain ⟨i, j, hne, heq⟩ := Finite.exists_ne_map_eq_of_infinite g
    have heq : f i = f j := congrArg Subtype.val heq
    rcases Nat.lt_or_gt_of_ne hne with hlt | hlt
    · have hcycle : TransGen Leads (f i) (f j) := htrans hlt
      rw [← heq] at hcycle
      exact ⟨f i, hreach i, hcycle⟩
    · have hcycle : TransGen Leads (f j) (f i) := htrans hlt
      rw [heq] at hcycle
      exact ⟨f j, hreach j, hcycle⟩

end Within

namespace Cursor

variable {root : Node} {c d : Cursor} {n : Nat}

/-! ## Following a chain -/

/-- One round of the loop at a node that was not passed before. -/
lemma followFrom_succ {seen : List Key} (hnew : c.key ∉ seen) :
    followFrom (n + 1) seen c = match c.next? with
      | some d => followFrom n (c.key :: seen) d
      | none => c.ending := by
  rw [followFrom, if_neg (by simpa using hnew), next?, ending]
  by_cases hkind : c.kind = .identifier
  · rw [stringValue?_of_identifier hkind, if_pos hkind, if_pos hkind]
    cases c.initializer? <;> simp [hkind]
  · rw [if_neg hkind, if_neg hkind]
    cases c.stringValue? <;> simp [hkind]

/-- The loop without a bound: from a node, with the keys of the nodes that it passed, it ends with a
result. -/
inductive Follows : List Key → Cursor → ChainEnd → Prop
  | passed {seen : List Key} {c : Cursor} : c.key ∈ seen → Follows seen c .other
  | ends {seen : List Key} {c : Cursor} : c.key ∉ seen → c.next? = none → Follows seen c c.ending
  | goes {seen : List Key} {c d : Cursor} {out : ChainEnd} :
    c.key ∉ seen → Leads c d → Follows (c.key :: seen) d out → Follows seen c out

variable {seen : List Key} {out out' : ChainEnd}

lemma Follows.unique (h : Follows seen c out) (h' : Follows seen c out') : out = out' := by
  induction h with
  | passed hseen =>
    cases h' with
    | passed _ => rfl
    | ends hnew _ => exact absurd hseen hnew
    | goes hnew _ _ => exact absurd hseen hnew
  | ends hnew hend =>
    cases h' with
    | passed hseen => exact absurd hseen hnew
    | ends _ _ => rfl
    | goes _ hleads _ => exact absurd hleads (not_leads_of_next? hend _)
  | goes hnew hleads _ ih =>
    cases h' with
    | passed hseen => exact absurd hseen hnew
    | ends _ hend => exact absurd hleads (not_leads_of_next? hend _)
    | goes _ hleads' hrest =>
      obtain rfl := rightUnique_leads hleads hleads'
      exact ih hrest

/-- **The loop comes to an end.**  With each round it remembers one more key, and there are no more keys
than nodes; so a bound that is larger than the tree is never reached. -/
lemma follows_followFrom (hc : Within root c) (hseen : ∀ k ∈ seen, ∃ b, Within root b ∧ b.key = k)
    (hnodup : seen.Nodup) (hn : root.size < n + seen.length) :
    Follows seen c (followFrom n seen c) := by
  induction n generalizing seen c with
  | zero =>
    have hle := Within.length_le_size hnodup hseen
    omega
  | succ n ih =>
    by_cases hpassed : c.key ∈ seen
    · rw [followFrom, if_pos (by simpa using hpassed)]
      exact .passed hpassed
    · rw [followFrom_succ hpassed]
      rcases hnext : c.next? with - | d
      · exact .ends hpassed hnext
      · have hlength : root.size < n + (c.key :: seen).length := by
          rw [List.length_cons]
          omega
        refine .goes hpassed hnext (ih (hc.leads hnext) (fun k hk => ?_)
          (List.nodup_cons.2 ⟨hpassed, hnodup⟩) hlength)
        rcases List.mem_cons.1 hk with rfl | hk
        · exact ⟨c, hc, rfl⟩
        · exact hseen k hk

lemma follows_follow (hc : Within root c) : Follows [] c.unwrap c.follow := by
  rw [follow, hc.root_eq]
  exact follows_followFrom hc.unwrap (by simp) List.nodup_nil (by simp)

/-- A chain that goes on is followed until it comes back. -/
lemma Follows.eq_of_goes (h : Follows seen c out)
    (hgoes : ∀ d, ReflTransGen Leads c d → d.next? ≠ none) : out = .other := by
  induction h with
  | passed _ => rfl
  | ends _ hend => exact absurd hend (hgoes _ .refl)
  | goes _ hleads _ ih => exact ih fun e he => hgoes e (.head hleads he)

/-- A chain that ends is followed to its end.  What is remembered are the keys of the nodes that lead to
the current one. -/
lemma Follows.eq_of_ends (hroot : root.IsPlaced) (h : Follows seen c out) (hc : Within root c)
    (hd : ReflTransGen Leads c d) (hend : d.next? = none) (hseen : KeysBefore root Leads c seen) :
    out = d.ending := by
  induction h with
  | passed hpassed =>
    have hacyclic := not_transGen_of_ends rightUnique_leads hd (not_leads_of_next? hend)
    exact absurd hpassed (hseen.notMem hroot (fun _ _ hleads => .inl hleads.kind) hc hacyclic)
  | ends _ hlast =>
    rcases hd.cases_head with rfl | ⟨e, he, -⟩
    · rfl
    · exact absurd he (not_leads_of_next? hlast e)
  | @goes seen c e out _ hleads _ ih =>
    rcases hd.cases_head with rfl | ⟨e', he', hrest⟩
    · exact absurd hleads (not_leads_of_next? hend e)
    · obtain rfl := rightUnique_leads hleads he'
      exact ih (hc.leads hleads) hrest (hseen.cons hc hleads)

lemma EndsAt.follow_eq (hroot : root.IsPlaced) (hc : Within root c) (h : EndsAt c d) :
    c.follow = d.ending :=
  (follows_follow hc).eq_of_ends hroot hc.unwrap h.1 h.2 keysBefore_nil

lemma Revisits.follow_eq (hc : Within root c) (h : Revisits c) : c.follow = .other :=
  (follows_follow hc).eq_of_goes fun d hd hend => EndsAt.not_revisits (d := d) ⟨hd, hend⟩ h

end Cursor

end RouteScribe.Source
