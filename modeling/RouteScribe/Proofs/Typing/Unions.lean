import RouteScribe.Proofs.Typing.Runs

/-!
# What unions are made of

However members are told apart, a union that is made of some types has its members among theirs, in
order (`exists_sublist_of_makeUnion`).  So it is no heavier than they are together: `Ty.weight`
counts the nodes of a type, a tuple twice, and the union of the elements of a tuple weighs less than
the tuple.  That makes the weight a measure for every way to go from a type to a part of it, short of
going through an object.
-/

namespace RouteScribe.Typing

open Infer

/-! ## Weight -/

namespace Ty

mutual

/-- The number of nodes of a type; a tuple counts twice, because its elements are looked at through
their union. -/
def weight : Ty → Nat
  | .primitive _ | .literal _ | .enumMember _ _ _ | .object _ | .function _ => 1
  | .union members => 1 + weights members
  | .array element => 1 + element.weight
  | .tuple elements => 2 + weights elements
  | .map value => 1 + value.weight
  | .promise inner => 1 + inner.weight
  | .named _ args => 1 + weights args

/-- The number of nodes of some types. -/
def weights : List Ty → Nat
  | [] => 0
  | t :: rest => t.weight + weights rest

end

@[simp] lemma weights_append (ts us : List Ty) : weights (ts ++ us) = weights ts + weights us := by
  induction ts with
  | nil => simp [weights]
  | cons t ts ih => simp only [List.cons_append, weights, ih]; omega

lemma weight_le_weights {t : Ty} {ts : List Ty} (h : t ∈ ts) : t.weight ≤ weights ts := by
  obtain ⟨before, after, rfl⟩ := List.append_of_mem h
  simp only [weights_append, weights]
  omega

lemma weights_le_of_sublist {ts us : List Ty} (h : ts.Sublist us) : weights ts ≤ weights us := by
  induction h with
  | slnil => exact le_rfl
  | cons u _ ih => simp only [weights]; omega
  | cons_cons u _ ih => simp only [weights]; omega

lemma weights_alternatives_le (t : Ty) : weights t.alternatives ≤ t.weight := by
  cases t <;> simp [alternatives, weights, weight]

lemma weights_flatMap_alternatives_le (ts : List Ty) :
    weights (ts.flatMap alternatives) ≤ weights ts := by
  induction ts with
  | nil => simp [weights]
  | cons t ts ih =>
    have halternatives := weights_alternatives_le t
    simp only [List.flatMap_cons, weights_append, weights]
    omega

lemma weight_ofAlternatives_le (members : List Ty) :
    (ofAlternatives members).weight ≤ 1 + weights members := by
  unfold ofAlternatives
  split
  · simp [weight]
  · split
    · simp [any, weight]
    · split
      · simp only [weights]; omega
      · simp [weight]

end Ty

/-! ## Members of a union -/

namespace Ty

lemma alternatives_of_single {t : Ty} (h : t.unionMembers? = none) : t.alternatives = [t] := by
  cases t with
  | union members => cases h
  | _ => rfl

lemma flatMap_alternatives {ts : List Ty} (h : ∀ t ∈ ts, t.unionMembers? = none) :
    ts.flatMap alternatives = ts := by
  induction ts with
  | nil => rfl
  | cons t ts ih =>
    obtain ⟨ht, hts⟩ := List.forall_mem_cons.1 h
    rw [List.flatMap_cons, alternatives_of_single ht, ih hts, List.singleton_append]

end Ty

variable {c : Context} {s s' : Store}

lemma firstOfKeys_sublist {κ α : Type} [BEq κ] (seen : List κ) (entries : List (κ × α)) :
    (firstOfKeys seen entries).Sublist (entries.map (·.2)) := by
  induction entries generalizing seen with
  | nil => exact .slnil
  | cons e rest ih =>
    obtain ⟨k, a⟩ := e
    rw [firstOfKeys, List.map_cons]
    split
    · exact (ih seen).cons a
    · exact (ih (k :: seen)).cons_cons a

/-- A value at the end is kept if its key is new. -/
lemma firstOfKeys_concat {κ α : Type} [DecidableEq κ] (seen : List κ) (entries : List (κ × α)) (k : κ)
    (a : α) : firstOfKeys seen (entries ++ [(k, a)]) =
      firstOfKeys seen entries ++ if k ∈ seen ∨ k ∈ entries.map (·.1) then [] else [a] := by
  induction entries generalizing seen with
  | nil => simp [firstOfKeys]
  | cons e rest ih =>
    obtain ⟨k', b⟩ := e
    rw [List.cons_append, firstOfKeys, firstOfKeys]
    by_cases hseen : k' ∈ seen
    · have hiff : (k ∈ seen ∨ k ∈ ((k', b) :: rest).map (·.1)) ↔
          (k ∈ seen ∨ k ∈ rest.map (·.1)) := by
        simp only [List.map_cons, List.mem_cons]
        grind
      simp only [List.contains_iff_mem, hseen, if_true, ih, hiff]
    · have hiff : (k ∈ seen ∨ k ∈ ((k', b) :: rest).map (·.1)) ↔
          (k ∈ k' :: seen ∨ k ∈ rest.map (·.1)) := by
        simp only [List.map_cons, List.mem_cons]
        grind
      simp only [List.contains_iff_mem, hseen, if_false, ih, hiff, List.cons_append]

/-- Values with different keys are all kept. -/
lemma firstOfKeys_of_nodup {κ α : Type} [DecidableEq κ] {entries : List (κ × α)}
    (hdistinct : (entries.map (·.1)).Nodup) : firstOfKeys [] entries = entries.map (·.2) := by
  induction entries using List.reverseRecOn with
  | nil => rfl
  | append_singleton entries e ih =>
    obtain ⟨k, a⟩ := e
    rw [List.map_append, List.nodup_append] at hdistinct
    obtain ⟨hentries, -, hnew⟩ := hdistinct
    have hfresh : ¬(k ∈ [] ∨ k ∈ entries.map (·.1)) := by
      simpa using fun b hb => hnew k (List.mem_map.2 ⟨(k, b), hb, rfl⟩) k List.mem_cons_self rfl
    rw [firstOfKeys_concat, ih hentries, if_neg hfresh, List.map_append, List.map_singleton]

/-- Items that are given keys stay what they are. -/
lemma map_snd_of_keyed {α κ : Type} {key : α → Infer κ} {l : List α} {keyed : List (κ × α)}
    (h : (l.mapM fun a => do return (← key a, a)).exec c s = (.ok keyed, s')) :
    keyed.map (·.2) = l := by
  induction l generalizing s keyed with
  | nil =>
    rw [List.mapM_nil, exec_pure] at h
    cases h
    rfl
  | cons a l ih =>
    rw [List.mapM_cons, exec_bind_eq_ok] at h
    obtain ⟨e, s₁, he, hrest⟩ := h
    obtain ⟨k, s₂, -, hpure⟩ := exec_bind_eq_ok.1 he
    obtain ⟨rest, s₃, hrest, hcons⟩ := exec_bind_eq_ok.1 hrest
    cases hpure
    cases hcons
    rw [List.map_cons, ih hrest]

/-- The members of a union are among those of the types it is made of, in order. -/
theorem exists_sublist_of_makeUnion {ask : Answers} {ts : List Ty} {u : Ty}
    (h : (makeUnion ask ts).exec c s = (.ok u, s')) :
    ∃ members, members.Sublist (ts.flatMap Ty.alternatives) ∧ u = .ofAlternatives members := by
  obtain ⟨keyed, s₁, hkeyed, hpure⟩ := exec_bind_eq_ok.1 h
  cases hpure
  refine ⟨_, ?_, rfl⟩
  have hsublist := firstOfKeys_sublist [] keyed
  rwa [map_snd_of_keyed hkeyed] at hsublist

lemma weight_le_of_makeUnion {ask : Answers} {ts : List Ty} {u : Ty}
    (h : (makeUnion ask ts).exec c s = (.ok u, s')) : u.weight ≤ 1 + Ty.weights ts := by
  obtain ⟨members, hsublist, rfl⟩ := exists_sublist_of_makeUnion h
  calc (Ty.ofAlternatives members).weight
      ≤ 1 + Ty.weights members := Ty.weight_ofAlternatives_le members
    _ ≤ 1 + Ty.weights (ts.flatMap Ty.alternatives) :=
        Nat.add_le_add_left (Ty.weights_le_of_sublist hsublist) 1
    _ ≤ 1 + Ty.weights ts := Nat.add_le_add_left (Ty.weights_flatMap_alternatives_le ts) 1

/-- At a depth, the union of some types is made with the answers to that depth. -/
lemma toDepth_makeUnion (d : Nat) (ts : List Ty) :
    (makeUnion ask ts).toDepth d = (makeUnion (answer d) ts).toDepth d := by
  have hkey (t : Ty) : (unionKey ask t).toDepth d = (unionKey (answer d) t).toDepth d := by
    cases t <;> rfl
  simp only [makeUnion, toDepth_bind, toDepth_mapM, hkey]

end RouteScribe.Typing
