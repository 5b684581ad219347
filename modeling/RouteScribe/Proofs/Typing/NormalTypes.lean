import RouteScribe.Proofs.Typing.Derived

/-!
# Types in normal form

Unions are flat: a union has at least two members, none of which is a union or a type about which
nothing is known, and the same holds of all types in it (`Ty.IsNormal`).  The numbers that are the
only values of types can be limited as well, because a number may be too long to be displayed.
-/

set_option mvcgen.warning false

namespace RouteScribe.Typing

open Std.Do Infer
open Source (Node Cursor)

/-! ## Normal types -/

namespace Ty

mutual

/-- A type in which every union has at least two members, none of them a union or any type at all, and
in which every number that is the only value of a type is an expected one. -/
def IsNormal (numbers : Numeral → Prop) : Ty → Prop
  | .literal (.number n) => numbers n
  | .union members =>
    2 ≤ members.length ∧ (∀ m ∈ members, m.unionMembers? = none ∧ m.isAny = false) ∧
      AreNormal numbers members
  | .array t | .map t | .promise t => t.IsNormal numbers
  | .tuple ts | .named _ ts => AreNormal numbers ts
  | _ => True

/-- Types that are all normal. -/
def AreNormal (numbers : Numeral → Prop) : List Ty → Prop
  | [] => True
  | t :: rest => t.IsNormal numbers ∧ AreNormal numbers rest

end

variable {numbers : Numeral → Prop}

lemma areNormal_iff {ts : List Ty} : AreNormal numbers ts ↔ ∀ t ∈ ts, t.IsNormal numbers := by
  induction ts with
  | nil => simp [AreNormal]
  | cons t ts ih => simp [AreNormal, ih]

section

variable {t : Ty} {ts : List Ty}

@[simp, grind =] lemma isNormal_primitive (p : Primitive) : (Ty.primitive p).IsNormal numbers ↔ True := Iff.rfl

@[simp, grind =] lemma isNormal_string (s : String) :
    (Ty.literal (.string s)).IsNormal numbers ↔ True :=
  Iff.rfl

@[simp, grind =] lemma isNormal_boolean (b : Bool) :
    (Ty.literal (.boolean b)).IsNormal numbers ↔ True :=
  Iff.rfl

@[simp, grind =] lemma isNormal_number (n : Numeral) :
    (Ty.literal (.number n)).IsNormal numbers ↔ numbers n :=
  Iff.rfl

@[simp, grind =] lemma isNormal_enumMember (e m : String) (v : Option Constant) :
    (Ty.enumMember e m v).IsNormal numbers ↔ True := Iff.rfl

@[simp, grind =] lemma isNormal_object (id : Nat) : (Ty.object id).IsNormal numbers ↔ True := Iff.rfl

@[simp, grind =] lemma isNormal_function (text : String) : (Ty.function text).IsNormal numbers ↔ True :=
  Iff.rfl

@[simp, grind =] lemma isNormal_array : (Ty.array t).IsNormal numbers ↔ t.IsNormal numbers := Iff.rfl

@[simp, grind =] lemma isNormal_map : (Ty.map t).IsNormal numbers ↔ t.IsNormal numbers := Iff.rfl

@[simp, grind =] lemma isNormal_promise : (Ty.promise t).IsNormal numbers ↔ t.IsNormal numbers := Iff.rfl

@[simp, grind =] lemma isNormal_tuple : (Ty.tuple ts).IsNormal numbers ↔ ∀ t ∈ ts, t.IsNormal numbers := areNormal_iff

@[simp, grind =] lemma isNormal_named (name : String) :
    (Ty.named name ts).IsNormal numbers ↔ ∀ t ∈ ts, t.IsNormal numbers :=
  areNormal_iff

lemma isNormal_union : (Ty.union ts).IsNormal numbers ↔ 2 ≤ ts.length ∧
    ∀ t ∈ ts, t.unionMembers? = none ∧ t.isAny = false ∧ t.IsNormal numbers := by
  rw [IsNormal, areNormal_iff]
  constructor
  · rintro ⟨hlength, hflat, hnormal⟩
    exact ⟨hlength, fun t ht => ⟨(hflat t ht).1, (hflat t ht).2, hnormal t ht⟩⟩
  · rintro ⟨hlength, hall⟩
    exact ⟨hlength, fun t ht => ⟨(hall t ht).1, (hall t ht).2.1⟩, fun t ht => (hall t ht).2.2⟩

/-- A type is normal, and no union. -/
def IsMember (numbers : Numeral → Prop) (t : Ty) : Prop :=
  t.unionMembers? = none ∧ t.IsNormal numbers

lemma IsNormal.isMember (h : t.IsNormal numbers) {m : Ty} (hm : m ∈ t.alternatives) : m.IsMember numbers := by
  cases t with
  | union members =>
    obtain ⟨hflat, -, hnormal⟩ := (isNormal_union.1 h).2 m hm
    exact ⟨hflat, hnormal⟩
  | _ =>
    cases List.mem_singleton.1 hm
    exact ⟨rfl, h⟩

lemma IsNormal.widenLiteral (h : t.IsNormal numbers) : t.widenLiteral.IsNormal numbers := by
  cases t with
  | literal l => trivial
  | _ => exact h

/-- The union of some members is normal. -/
lemma isNormal_ofAlternatives (h : ∀ t ∈ ts, t.IsMember numbers) : (ofAlternatives ts).IsNormal numbers := by
  unfold ofAlternatives
  split
  · trivial
  · split
    · trivial
    · rename_i hany
      split
      · exact (h _ List.mem_cons_self).2
      · rename_i hnil _ hsingle
        refine isNormal_union.2 ⟨?_, fun t ht => ⟨(h t ht).1, ?_, (h t ht).2⟩⟩
        · match ts, hnil, hsingle with
          | [], hnil, _ => exact absurd rfl hnil
          | [t], _, hsingle => exact absurd rfl (hsingle t)
          | _ :: _ :: _, _, _ => simp
        · simpa using List.any_eq_false.1 (Bool.eq_false_iff.2 hany) t ht

end

end Ty

end RouteScribe.Typing
