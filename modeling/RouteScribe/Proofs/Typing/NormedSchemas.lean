import RouteScribe.Proofs.Schema.WellFormed
import RouteScribe.Proofs.Typing.NormedAnswers

/-!
# Schemas of normal types
-/

namespace RouteScribe.Typing

open Infer
open Source (Node Cursor)

/-- What the view of a normal type says about the type. -/
def Norm.ViewsNormally (n : Norm) (t : Ty) : Schema.View Ty Nat → Prop
  | .union members => t = .union members
  | .primitive kind => kind = .null → t.isNull = true
  | .undefined => t.isUndefined = true
  | .array element => n.Allows element
  | .map value => n.Allows value
  | .object _ members => ∀ p ∈ members, n.Allows p.type
  | .other _ => True

/-- What the schema of a normal type is like.  Only the schemas of unions, and of types that say that
a value may be missing, cannot be variants of a union. -/
structure DescribesNormally (t : Ty) (s : Schema) : Prop where
  wellFormed : s.WellFormed
  isVariant : t.unionMembers? = none → t.isNullish = false → s.IsVariant

namespace DescribesNormally

variable {t : Ty} {ts : List Ty} {s : Schema}

lemma of_isVariant (h : s.WellFormed) (hvariant : s.IsVariant) : DescribesNormally t s :=
  ⟨h, fun _ _ => hvariant⟩

lemma of_union (h : s.WellFormed) : DescribesNormally (.union ts) s where
  wellFormed := h
  isVariant hflat := by cases hflat

lemma of_isNullish (h : s.WellFormed) (hnullish : t.isNullish = true) : DescribesNormally t s where
  wellFormed := h
  isVariant _ hnot := by
    rw [hnullish] at hnot
    cases hnot

end DescribesNormally

variable {n : Norm}

/-- The answers that the analysis uses keep to the norm if those at all depths do. -/
lemma answers_ask (h : ∀ d, n.Answers (answer d)) : n.Answers ask where
  typeOf c hc := keeps_read.bind fun x _ => (h x.depth).typeOf c hc
  denoted e he := keeps_read.bind fun x _ => (h x.depth).denoted e he
  properties t := keeps_read.bind fun x _ => (h x.depth).properties t
  display t ht := keeps_read.bind fun x _ => (h x.depth).display t ht

section

variable (hask : n.Answers ask) {t : Ty}

include hask

lemma keeps_view (ht : n.Allows t) : n.Keeps (view t) (n.ViewsNormally t) := by
  rw [view_eq]
  split
  · rename_i v hv
    refine keeps_pure ?_
    rcases Ty.plainView?_cases hv with ⟨members, rfl, rfl⟩ | ⟨kind, rfl, hnull⟩ | ⟨rfl, hundefined⟩
    · exact rfl
    · exact hnull
    · exact hundefined
  · refine (keeps_elementType? hask ht).bind fun element helement => ?_
    split
    · exact keeps_pure (helement _ rfl)
    · rename_i value hvalue
      refine keeps_pure ?_
      cases t <;> cases hvalue
      exact ht
    · refine (hask.properties t).bind fun r hr => ?_
      split
      · exact keeps_pure (hr _ rfl).1
      · exact keeps_pure (hr _ rfl).1
      · exact (hask.display t ht).bind fun _ _ => keeps_pure trivial

section

variable {describe : List Nat → Ty → Infer Schema}
  (hdescribe : ∀ expanding t, n.Allows t → n.Keeps (describe expanding t) (DescribesNormally t))

include hdescribe

omit hask in
lemma keeps_describeMembers (inside : List Nat) {members : List Property}
    (hmembers : ∀ p ∈ members, n.Allows p.type) :
    n.Keeps (describeMembers describe inside members) (DescribesNormally t) := by
  have hmember : ∀ p ∈ members, n.Keeps (do
      let s ← describe inside p.type
      return (p.name, p.optional, s)) fun m => m.2.2.WellFormed := by
    intro p hp
    exact (hdescribe inside p.type (hmembers p hp)).bind fun s hs => keeps_pure hs.wellFormed
  refine (keeps_mapM_all hmember).bind fun properties hproperties => keeps_pure ?_
  exact .of_isVariant (Schema.everywhere_ofProperties hproperties trivial) rfl

omit hask in
/-- The members of a union that hold values have schemas that can be variants. -/
lemma keeps_describe_variant (expanding : List Nat) {members : List Ty}
    (ht : n.Allows (.union members)) : ∀ m ∈ members.filter fun m => !m.isNullish,
    n.Keeps (describe expanding m) fun s => s.WellFormed ∧ s.IsVariant := by
  intro m hm
  obtain ⟨hmem, hnullish⟩ := List.mem_filter.1 hm
  obtain ⟨hflat, -, hnormal⟩ := (Ty.isNormal_union.1 ht).2 m hmem
  refine (hdescribe expanding m hnormal).mono ?_
  intro s hs
  exact ⟨hs.wellFormed, hs.isVariant hflat (by simpa using hnullish)⟩

/-- One level of description. -/
lemma keeps_describeWith (expanding : List Nat) (ht : n.Allows t) :
    n.Keeps (Schema.describeWith view Ty.isNullish describe expanding t) (DescribesNormally t) := by
  refine (keeps_view hask ht).bind fun v hv => ?_
  cases v with
  | union members =>
    obtain rfl : t = .union members := hv
    have hvariant := keeps_describe_variant hdescribe expanding ht
    dsimp only
    split
    · exact keeps_pure (.of_union (Schema.everywhere_unparsed.2 trivial))
    · rename_i p hp
      refine (hvariant p (by simp [hp])).bind fun s hs => keeps_pure (.of_union ?_)
      split
      · exact hs.1.orNull (hs.1 s .here).orNull
      · exact hs.1
    · rename_i hnil _
      refine (keeps_mapM hvariant).bind fun schemas hs => keeps_pure (.of_union ?_)
      have hne : schemas ≠ [] := by
        rintro rfl
        exact hnil (List.forall₂_nil_right_iff.1 hs)
      exact Schema.wellFormed_ofVariants hne (forall_mem_of_forall₂ hs)
  | primitive kind =>
    have hs : (Schema.primitive kind none false).WellFormed := Schema.everywhere_primitive.2 trivial
    cases kind with
    | null =>
      have hnull : t.isNull = true := hv rfl
      exact keeps_pure (.of_isNullish hs (by simp [Ty.isNullish, hnull]))
    | _ => exact keeps_pure (.of_isVariant hs rfl)
  | undefined =>
    have hundefined : t.isUndefined = true := hv
    exact keeps_pure (.of_isNullish (Schema.everywhere_unparsed.2 trivial)
      (by simp [Ty.isNullish, hundefined]))
  | array element =>
    refine (hdescribe expanding element hv).bind fun s hs => keeps_pure ?_
    exact .of_isVariant (Schema.everywhere_array.2 ⟨trivial, hs.wellFormed⟩) rfl
  | map value =>
    refine (hdescribe expanding value hv).bind fun s hs => keeps_pure ?_
    exact .of_isVariant (Schema.everywhere_map.2 ⟨trivial, hs.wellFormed⟩) rfl
  | object identity members =>
    cases identity with
    | none => exact keeps_describeMembers hdescribe expanding hv
    | some id =>
      dsimp only
      split
      · exact keeps_pure (.of_isVariant (Schema.everywhere_unparsed.2 trivial) rfl)
      · exact keeps_describeMembers hdescribe (id :: expanding) hv
  | other description =>
    exact keeps_pure (.of_isVariant (Schema.everywhere_unparsed.2 trivial) rfl)

end

/-- **The schema of a normal type is well formed**, at every depth of description. -/
theorem keeps_schemaOf (ht : n.Allows t) :
    n.Keeps (schemaOf t) fun s => s.WellFormed := by
  have hdescribe (level : Nat) (expanding : List Nat) (t : Ty) (ht : n.Allows t) :
      n.Keeps (Schema.synthesize view Ty.isNullish (throw .exhausted) level expanding t)
        (DescribesNormally t) := by
    induction level generalizing expanding t with
    | zero => exact keeps_throw (Norm.excuses_of_ne (by simp))
    | succ level ih => exact keeps_describeWith hask ih expanding ht
  exact keeps_read.bind fun x _ => (hdescribe x.depth [] t ht).mono fun s hs => hs.wellFormed

end

end RouteScribe.Typing
