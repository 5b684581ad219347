import Mathlib.Tactic
import RouteScribe.Typing.Type

/-!
# Types under other identities of objects

Objects are known by their places in a store, so a type means the same in another store when its
objects are renamed to the places they have there.  Everything that is read off a type alone is blind
to such a renaming: whether it is a string or a number, the only value it has, and whether it may be
missing.  What takes types apart commutes with it.
-/

namespace RouteScribe.Typing

namespace Ty

mutual

/-- The type with its objects under other identities. -/
def rename (ρ : Nat → Nat) : Ty → Ty
  | .primitive p => .primitive p
  | .literal l => .literal l
  | .enumMember enumeration member value => .enumMember enumeration member value
  | .union members => .union (renameAll ρ members)
  | .array element => .array (rename ρ element)
  | .tuple elements => .tuple (renameAll ρ elements)
  | .map value => .map (rename ρ value)
  | .object id => .object (ρ id)
  | .promise inner => .promise (rename ρ inner)
  | .named name args => .named name (renameAll ρ args)
  | .function signature => .function signature

def renameAll (ρ : Nat → Nat) : List Ty → List Ty
  | [] => []
  | t :: rest => rename ρ t :: renameAll ρ rest

end

variable (ρ : Nat → Nat)

@[simp] lemma renameAll_eq_map (ts : List Ty) : renameAll ρ ts = ts.map (rename ρ) := by
  induction ts with
  | nil => rfl
  | cons t ts ih => rw [renameAll, ih, List.map_cons]

/-! ## What is read off a type -/

/-- A test of types that does not look at the identities of objects. -/
def Blind (test : Ty → Bool) : Prop := ∀ (ρ : Nat → Nat) (t : Ty), test (t.rename ρ) = test t

section

variable {test : Ty → Bool}

mutual

lemma every_rename (h : Blind test) (t : Ty) : every test (t.rename ρ) = every test t := by
  cases t with
  | union members => exact everyOf_renameAll h members
  | _ => exact h ρ _

lemma everyOf_renameAll (h : Blind test) (ts : List Ty) :
    everyOf test (renameAll ρ ts) = everyOf test ts := by
  cases ts with
  | nil => rfl
  | cons t ts => rw [renameAll, everyOf, everyOf, every_rename h t, everyOf_renameAll h ts]

end

lemma blind_every (h : Blind test) : Blind (every test) := fun ρ t => every_rename ρ h t

end

lemma blind_isStringLike : Blind isStringLike :=
  blind_every fun _ t => by cases t <;> rfl

lemma blind_isNumberLike : Blind isNumberLike :=
  blind_every fun _ t => by cases t <;> rfl

lemma blind_isBooleanLike : Blind isBooleanLike :=
  blind_every fun _ t => by cases t <;> rfl

lemma blind_isNull : Blind isNull := fun _ t => by cases t <;> rfl

lemma blind_isUndefined : Blind isUndefined := fun _ t => by cases t <;> rfl

lemma blind_isAny : Blind isAny := fun _ t => by cases t <;> rfl

lemma blind_isNullish : Blind isNullish := fun ρ t => by
  rw [isNullish, isNullish, blind_isNull, blind_isUndefined]

@[simp] lemma isStringLike_rename (t : Ty) : (t.rename ρ).isStringLike = t.isStringLike :=
  blind_isStringLike ρ t

@[simp] lemma isNumberLike_rename (t : Ty) : (t.rename ρ).isNumberLike = t.isNumberLike :=
  blind_isNumberLike ρ t

@[simp] lemma isBooleanLike_rename (t : Ty) : (t.rename ρ).isBooleanLike = t.isBooleanLike :=
  blind_isBooleanLike ρ t

@[simp] lemma isNull_rename (t : Ty) : (t.rename ρ).isNull = t.isNull := blind_isNull ρ t

@[simp] lemma isUndefined_rename (t : Ty) : (t.rename ρ).isUndefined = t.isUndefined :=
  blind_isUndefined ρ t

@[simp] lemma isAny_rename (t : Ty) : (t.rename ρ).isAny = t.isAny := blind_isAny ρ t

@[simp] lemma isNullish_rename (t : Ty) : (t.rename ρ).isNullish = t.isNullish :=
  blind_isNullish ρ t

@[simp] lemma numericValue?_rename (t : Ty) : (t.rename ρ).numericValue? = t.numericValue? := by
  cases t <;> rfl

@[simp] lemma stringValue?_rename (t : Ty) : (t.rename ρ).stringValue? = t.stringValue? := by
  cases t <;> rfl

/-! ## Parts of types -/

@[simp] lemma unionMembers?_rename (t : Ty) :
    (t.rename ρ).unionMembers? = t.unionMembers?.map (List.map (rename ρ)) := by
  cases t with
  | union members => simp only [rename, renameAll_eq_map, unionMembers?, Option.map_some]
  | _ => rfl

@[simp] lemma alternatives_rename (t : Ty) :
    (t.rename ρ).alternatives = t.alternatives.map (rename ρ) := by
  cases t with
  | union members => simp only [rename, renameAll_eq_map, alternatives]
  | _ => rfl

@[simp] lemma mapValue?_rename (t : Ty) : (t.rename ρ).mapValue? = t.mapValue?.map (rename ρ) := by
  cases t <;> rfl

@[simp] lemma widenLiteral_rename (t : Ty) :
    (t.rename ρ).widenLiteral = t.widenLiteral.rename ρ := by
  cases t <;> rfl

lemma ofAlternatives_map_rename (members : List Ty) :
    ofAlternatives (members.map (rename ρ)) = (ofAlternatives members).rename ρ := by
  have hany : (members.map (rename ρ)).any isAny = members.any isAny := by
    rw [List.any_map]
    exact congrArg members.any (funext (isAny_rename ρ))
  match members with
  | [] => rfl
  | [t] =>
    simp only [List.map_cons, List.map_nil] at hany ⊢
    rw [ofAlternatives, hany, ofAlternatives]
    split <;> rfl
  | t :: u :: rest =>
    have hmany (t u : Ty) (rest : List Ty) : ofAlternatives (t :: u :: rest) =
        if (t :: u :: rest).any isAny then any else .union (t :: u :: rest) := rfl
    simp only [List.map_cons] at hany ⊢
    rw [hmany, hmany, hany]
    split
    · rfl
    · simp only [rename, renameAll_eq_map, List.map_cons]

end Ty

end RouteScribe.Typing
