import RouteScribe.Proofs.Route.Failures

/-!
# Status codes are the integers of the type

The status codes of an expression are worked out in three ways: from the type of a literal, from the
value of a member of an enumeration without asking for a type, and from the members of the type.  They
all give what the type alone would (`exec_statuses`): its members that are integers, each once.  Only a
literal that is no integer is treated in a way of its own, for it loses its fraction.
-/

namespace RouteScribe.Handler

open Source (Node Cursor Within)
open Typing Infer

/-- The integer that is the only value of a type. -/
def integerValue? (t : Ty) : Option Int := t.numericValue?.bind Numeral.int?

/-- The integers among the members of a type, each once and in the order in which they first occur. -/
def integersOf (t : Ty) : List Int := (t.alternatives.filterMap integerValue?).eraseDups

/-- The integers of the type of an expression. -/
def integersOfType (c : Cursor) : Infer (List Int) := return integersOf (← typeOf c)

lemma distinctIntegers_eq (numbers : List Numeral) :
    distinctIntegers numbers = (numbers.filterMap Numeral.int?).eraseDups := by
  rw [distinctIntegers, foldl_new, List.removeAll_nil, List.nil_append]

lemma distinctIntegers_of_type (t : Ty) :
    distinctIntegers (t.alternatives.filterMap Ty.numericValue?) = integersOf t := by
  rw [distinctIntegers_eq, List.filterMap_filterMap]
  rfl

section

variable {root : Node} {c d : Cursor} {x : Context} {s : Store} {member : String} {code : Int}

/-- The type of a member of an enumeration, where it is not being worked out. -/
lemma exec_typeOf_enumAccess (hkind : c.kind = .memberExpression) (hdepth : 1 ≤ x.depth)
    (hopen : c.key ∉ x.resolving) (haccess : enumAccess? c = some (d, member)) :
    (typeOf c).exec x s = (enumMemberType d member).exec (x.inExpression c) s := by
  obtain ⟨⟨name, object⟩, hmember, -⟩ := Option.bind_eq_some_iff.1 haccess
  rw [Cursor.unwrap_of_kind (by rw [hkind]; rfl)] at hmember
  obtain ⟨k, hk⟩ : ∃ k, x.depth = k + 1 := ⟨x.depth - 1, by omega⟩
  have hask : (typeOf c).exec x s = (answer (k + 1) _ (.typeOf c)).exec x s := by
    rw [← hk]
    exact exec_bind_ok exec_read
  have hresolved : (answer (k + 1) _ (.typeOf c)).exec x s = _ := exec_bind_ok exec_read
  rw [hask, hresolved, if_neg fun hmem => hopen (List.contains_iff_mem.1 hmem), exec_withReader,
    expressionType, hkind]
  simp only [memberType, hmember, haccess]
  rfl

/-- A member of an enumeration with an integer as its value has this integer in its type. -/
lemma exec_integersOfType_enumAccess (hkind : c.kind = .memberExpression) (hdepth : 1 ≤ x.depth)
    (hopen : c.key ∉ x.resolving)
    (hvalue : enumMemberValue? c = .ok (some (.number (.exact code)))) :
    (integersOfType c).exec x s = (.ok [code], s) := by
  unfold enumMemberValue? at hvalue
  split at hvalue
  case h_2 => cases hvalue
  case h_1 d member haccess =>
    rcases htable : enumMembers d with e | table
    · rw [htable] at hvalue
      cases hvalue
    rw [htable] at hvalue
    have hlookup : (table.lookup member).join = some (.number (.exact code)) := by
      injection hvalue
    have hentry : table.lookup member = some (some (.number (.exact code))) :=
      Option.join_eq_some_iff.1 hlookup
    have hread : (ofNumbers (.ok table)).exec (x.inExpression c) s = (.ok table, s) := rfl
    have htype : (typeOf c).exec x s = (.ok (.enumMember (((d.child? .name).map Cursor.text).getD "")
        member (some (.number (.exact code)))), s) := by
      rw [exec_typeOf_enumAccess hkind hdepth hopen haccess, enumMemberType, htable,
        exec_bind_ok hread, hentry]
      rfl
    rw [integersOfType, exec_bind_ok htype, exec_pure]
    rfl

/-- The literal of a number that is not an integer has a fraction or is infinite. -/
def IsFractional (c : Cursor) : Prop :=
  c.kind = .number ∧ ∃ v, Numeral.read c.text = .ok (some (.fractional v))

lemma isFractional_of_isInfinite (h : isInfinite c = true) : IsFractional c.unwrap := by
  simp only [isInfinite, Bool.and_eq_true, beq_iff_eq] at h
  obtain ⟨hkind, hinfinite⟩ := h
  split at hinfinite
  case h_2 => cases hinfinite
  case h_1 n hread =>
    cases n with
    | exact n => cases hinfinite
    | fractional v => exact ⟨hkind, v, hread⟩

/-- A literal that is an integer, or has no value. -/
lemma exec_statuses_number (hkind : c.unwrap.kind = .number) {v : Option Numeral}
    (hread : Numeral.read c.unwrap.text = .ok v) (hinteger : ¬IsFractional c.unwrap) :
    (statuses c).exec x s = (integersOfType c.unwrap).exec x s := by
  have hnumber : (c.unwrap.kind == .number) = true := by rw [hkind]; rfl
  rw [statuses]
  dsimp only
  rw [if_pos hnumber]
  rcases exec_typeOf_number (x := x) (s := s) hkind hread with hfailed | htype
  · rw [exec_bind_error hfailed, integersOfType, exec_bind_error hfailed]
  rw [exec_bind_ok htype, integersOfType, exec_bind_ok htype]
  by_cases hopen : c.unwrap.key ∈ x.resolving
  · rw [if_pos hopen]
    rfl
  · rw [if_neg hopen]
    simp only [numericValue?_literalOf]
    rcases v with - | n | w
    · rfl
    · rfl
    · exact absurd ⟨hkind, w, hread⟩ hinteger

/-- The integer value of a member of an enumeration that a member access names, if it is one. -/
def enumValueOf (c : Cursor) : Infer (Option Constant) :=
  if c.kind == .memberExpression then ofNumbers (enumMemberValue? c) else pure none

/-- Without such a value the type is asked for. -/
lemma statuses_eq (hnumber : c.unwrap.kind ≠ .number) : statuses c = (do
    match ← enumValueOf c.unwrap with
    | some (.number (.exact code)) => return [code]
    | _ => integersOfType c.unwrap) := by
  rw [statuses, enumValueOf]
  dsimp only
  rw [if_neg fun heq => hnumber (beq_iff_eq.1 heq)]
  simp only [distinctIntegers_of_type]
  split
  · rfl
  · rfl

/-- The three ways to find the status codes of an expression give the integers of its type. -/
lemma exec_statuses (hlegible : root.Legible) (hc : Within root c) (hdepth : 1 ≤ x.depth)
    (hopen : c.unwrap.key ∉ x.resolving) (hinteger : ¬IsFractional c.unwrap) :
    (statuses c).exec x s = (integersOfType c.unwrap).exec x s := by
  by_cases hnumber : c.unwrap.kind = .number
  · obtain ⟨v, hread⟩ := hc.unwrap.exists_read hlegible hnumber
    exact exec_statuses_number hnumber hread hinteger
  by_cases hmember : c.unwrap.kind = .memberExpression
  · obtain ⟨v, hvalue⟩ := exists_enumMemberValue? hlegible hc.unwrap
    have hv : (enumValueOf c.unwrap).exec x s = (.ok v, s) := by
      rw [enumValueOf, if_pos (beq_iff_eq.2 hmember), hvalue]
      rfl
    by_cases hinteger : ∃ code, v = some (.number (.exact code))
    · obtain ⟨code, rfl⟩ := hinteger
      rw [exec_integersOfType_enumAccess hmember hdepth hopen hvalue, statuses_eq hnumber,
        exec_bind_ok hv, exec_pure]
    · rw [statuses_eq hnumber, exec_bind_ok hv]
      split
      case h_1 code => exact absurd ⟨code, rfl⟩ hinteger
      case h_2 => rfl
  · have hv : (enumValueOf c.unwrap).exec x s = (.ok none, s) := by
      rw [enumValueOf, if_neg fun heq => hmember (beq_iff_eq.1 heq), exec_pure]
    rw [statuses_eq hnumber, exec_bind_ok hv]

end

end RouteScribe.Handler

namespace RouteScribe.Route

open Source (Node Cursor)
open Typing Handler Infer

/-- One of two members of an enumeration with the same value, or a literal. -/
def choiceText : String :=
  "enum S \x7b A = 404, B = 404 \x7d\nconst x = c ? S.A : d ? 200 : S.B\n"

end RouteScribe.Route
