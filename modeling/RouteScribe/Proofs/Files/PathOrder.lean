import Mathlib.Tactic
import Mathlib.Data.List.Lex
import Mathlib.Data.String.Basic
import RouteScribe.Proofs.Files.Names

/-!
# The order of paths

Paths are ordered as lists of names, and names by their code points; a rooted path begins with a
slash of its own (`Path.key`).  Sorting puts paths into this order and then drops those that stand
behind an equal one.  What is left is strictly increasing, and so it is determined by which paths it
holds (`Path.sortUnique_congr`), as long as the order tells the paths apart.
-/

namespace RouteScribe.Files

/-- Dropping repetitions next to each other from an increasing list leaves a strictly increasing one
with the same items. -/
lemma exists_eraseReps {α β : Type} [BEq α] [LawfulBEq α] [LinearOrder β] {key : α → β} {a : α}
    {as : List α} (hle : (a :: as).Pairwise fun x y => key x ≤ key y)
    (hkey : ∀ x ∈ a :: as, ∀ y ∈ a :: as, key x = key y → x = y) (kept : List α) :
    ∃ l, List.eraseRepsBy.loop (· == ·) a as kept = kept.reverse ++ a :: l ∧
      ((a :: l).Pairwise fun x y => key x < key y) ∧ ∀ x, x ∈ a :: l ↔ x ∈ a :: as := by
  induction as generalizing a kept with
  | nil => exact ⟨[], by simp [List.eraseRepsBy.loop], List.pairwise_singleton _ _, fun _ => Iff.rfl⟩
  | cons b as ih =>
    obtain ⟨hfirst, hrest⟩ := List.pairwise_cons.1 hle
    have hkey' : ∀ x ∈ b :: as, ∀ y ∈ b :: as, key x = key y → x = y := fun x hx y hy =>
      hkey x (List.mem_cons_of_mem _ hx) y (List.mem_cons_of_mem _ hy)
    by_cases hab : a = b
    · subst hab
      obtain ⟨l, hl, hlt, hmem⟩ := ih hrest hkey' kept
      refine ⟨l, ?_, hlt, fun x => (hmem x).trans (by simp)⟩
      rw [List.eraseRepsBy.loop, beq_self_eq_true]
      exact hl
    · obtain ⟨l, hl, hlt, hmem⟩ := ih hrest hkey' (a :: kept)
      have hab' : key a < key b := lt_of_le_of_ne (hfirst b List.mem_cons_self) fun heq =>
        hab (hkey a List.mem_cons_self b (by simp) heq)
      refine ⟨b :: l, ?_, List.pairwise_cons.2 ⟨fun x hx => ?_, hlt⟩, fun x => ?_⟩
      · rw [List.eraseRepsBy.loop, beq_eq_false_iff_ne.2 hab]
        simpa using hl
      · rcases List.mem_cons.1 hx with rfl | hx
        · exact hab'
        · exact hab'.trans ((List.pairwise_cons.1 hlt).1 x hx)
      · rw [List.mem_cons, hmem x, ← List.mem_cons]

namespace Path

variable {p q : Path} {ps qs : List Path}

lemma leNames_iff {a b : List String} : leNames a b = true ↔ a ≤ b := by
  rw [← not_lt]
  induction a generalizing b with
  | nil => simp only [leNames, List.not_lt_nil, not_false_eq_true]
  | cons x xs ih =>
    cases b with
    | nil => simp only [leNames, List.nil_lt_cons, not_true_eq_false, Bool.false_eq_true]
    | cons y ys =>
      rw [leNames, List.cons_lt_cons_iff, Bool.or_eq_true, Bool.and_eq_true, decide_eq_true_eq,
        decide_eq_true_eq, ih]
      rcases lt_trichotomy x y with hlt | rfl | hgt
      · simp only [hlt, hlt.not_gt, hlt.ne', true_or, false_and, or_false, not_false_eq_true]
      · simp only [lt_irrefl, true_and, false_or]
      · simp only [hgt, hgt.not_gt, hgt.ne', true_or, false_and, or_false, not_true_eq_false]

/-- The order tells apart paths whose names hold no slash. -/
lemma key_injective (hp : p.IsWellNamed) (hq : q.IsWellNamed) (h : p.key = q.key) : p = q := by
  have hslash {r : Path} (hr : r.IsWellNamed) : "/" ∉ r.names := fun hmem =>
    (hr "/" hmem (by decide)).2.2.2 (by decide)
  obtain ⟨rooted, names⟩ := p
  obtain ⟨rooted', names'⟩ := q
  cases rooted with
  | false =>
    cases rooted' with
    | false => exact congrArg _ h
    | true =>
      have hnames : names = "/" :: names' := h
      exact absurd (by simp [hnames]) (hslash hp)
  | true =>
    cases rooted' with
    | false =>
      have hnames : "/" :: names = names' := h
      exact absurd (by simp [← hnames]) (hslash hq)
    | true => exact congrArg _ (List.cons.inj h).2

section

variable (hps : ∀ p ∈ ps, ∀ q ∈ ps, p.key = q.key → p = q)

include hps

lemma sortUnique_spec : ((sortUnique ps).Pairwise fun p q => p.key < q.key) ∧
    ∀ p, p ∈ sortUnique ps ↔ p ∈ ps := by
  have hsorted : (ps.mergeSort fun p q => leNames p.key q.key).Pairwise fun p q => p.key ≤ q.key := by
    refine (List.pairwise_mergeSort ?_ ?_ ps).imp leNames_iff.1
    · exact fun _ _ _ h h' => leNames_iff.2 ((leNames_iff.1 h).trans (leNames_iff.1 h'))
    · intro p q
      rw [Bool.or_eq_true, leNames_iff, leNames_iff]
      exact le_total _ _
  have hmem {p : Path} : p ∈ ps.mergeSort (fun p q => leNames p.key q.key) ↔ p ∈ ps :=
    List.mem_mergeSort
  rw [sortUnique, List.eraseReps]
  rcases hlist : ps.mergeSort (fun p q => leNames p.key q.key) with - | ⟨a, as⟩
  · rw [hlist] at hmem
    exact ⟨.nil, fun p => hmem⟩
  · rw [hlist] at hsorted hmem
    obtain ⟨l, hl, hlt, hl'⟩ := exists_eraseReps hsorted
      (fun p hp q hq => hps p (hmem.1 hp) q (hmem.1 hq)) []
    have heq : List.eraseRepsBy (fun p q => p == q) (a :: as) = a :: l := hl
    rw [heq]
    exact ⟨hlt, fun p => (hl' p).trans hmem⟩

/-- What is sorted depends on the paths only, not on their order or on how often they come up. -/
lemma sortUnique_congr (h : ∀ p, p ∈ qs ↔ p ∈ ps) : sortUnique qs = sortUnique ps := by
  have hqs : ∀ p ∈ qs, ∀ q ∈ qs, p.key = q.key → p = q :=
    fun p hp q hq => hps p ((h p).1 hp) q ((h q).1 hq)
  obtain ⟨hlt, hmem⟩ := sortUnique_spec hps
  obtain ⟨hlt', hmem'⟩ := sortUnique_spec hqs
  have hnodup {l : List Path} (hl : l.Pairwise fun p q => p.key < q.key) : l.Nodup :=
    hl.imp fun hlt heq => (congrArg key heq).not_lt hlt
  refine List.Perm.eq_of_pairwise (fun p q _ _ h h' => absurd h' h.not_gt) hlt' hlt
    ((List.perm_ext_iff_of_nodup (hnodup hlt') (hnodup hlt)).2 fun p => ?_)
  rw [hmem', hmem, h]

end

end Path

end RouteScribe.Files
