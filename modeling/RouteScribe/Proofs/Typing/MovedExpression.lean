import RouteScribe.Proofs.Typing.MovedDenotation

/-!
# Expressions, queries and schemas in another store

The functions that give the types of expressions are carried over to a store that holds the present
one, like those for type expressions.  So all queries are (`carries_answer`), by induction on their
depth, and with them views and schemas: a schema says nothing about the identities of objects, and
an object is described inside itself in both stores or in neither (`moved_schemaOf`).
-/

namespace RouteScribe.Typing

open Infer
open Source (Cursor)

section

variable {v : Relocation} {c : Context} {ask : Answers} (h : Carries v ask)

include h

lemma moved_typeOf? (e : Option Cursor) :
    Moved v c (Ty.rename v.place) (typeOf? ask e) (typeOf? ask e) := by
  cases e with
  | none => exact moved_pure rfl
  | some e => exact h.typeOf c e

lemma moved_nameType (e : Cursor) :
    Moved v c (Ty.rename v.place) (nameType ask e) (nameType ask e) := by
  unfold nameType
  split
  · exact moved_pure rfl
  · split
    · exact moved_pure rfl
    · split
      · split
        · exact h.denoted c _
        · exact moved_pure rfl
        · refine (h.typeOf c _).bind fun t => ?_
          split
          · exact moved_pure rfl
          · exact moved_widen h t
      · split
        · exact h.denoted c _
        · exact moved_pure rfl
      · split
        · exact (h.denoted c _).bind fun t => moved_withUndefined h t
        · exact moved_pure rfl
      · exact moved_pure rfl
      · exact moved_pure rfl
      · refine moved_pure ?_
        split <;> rfl

/-! ## Objects and members -/

lemma moved_literalMember (m : Cursor) : Moved v c (List.map (renameProperty v.place))
    (literalMember ask m) (literalMember ask m) := by
  unfold literalMember
  dsimp only
  split
  · split
    · exact moved_pure rfl
    · exact (moved_typeOf? h _).bind fun t => (moved_widen h t).bind fun _ => moved_pure rfl
  · exact (moved_nameType h m).bind fun t => (moved_widen h t).bind fun _ => moved_pure rfl
  · refine moved_pure ?_
    simp only [List.map_map]
    rfl
  · exact (moved_typeOf? h _).bind fun t => moved_propertiesOf h t
  · exact moved_pure rfl

lemma moved_objectLiteralType (e : Cursor) :
    Moved v c (Ty.rename v.place) (objectLiteralType ask e) (objectLiteralType ask e) := by
  refine (moved_mapM_same fun m _ => moved_literalMember h m).bind fun properties => ?_
  have hobject := moved_newObject (v := v) (c := c) none (.known (mergeProperties properties.flatten))
  rwa [Shape.rename, ← mergeProperties_map, List.map_flatten] at hobject

lemma moved_arrayLiteralType (e : Cursor) :
    Moved v c (Ty.rename v.place) (arrayLiteralType ask e) (arrayLiteralType ask e) := by
  unfold arrayLiteralType
  dsimp only
  split
  · exact moved_pure rfl
  · refine (moved_mapM_same fun e _ => (h.typeOf c e).bind fun t => moved_widen h t).bind
      fun ts => ?_
    exact (moved_makeUnion h ts).bind fun _ => moved_pure rfl

lemma moved_hasLength (t : Ty) :
    Moved v c id (hasLength ask t) (hasLength ask (t.rename v.place)) := by
  unfold hasLength
  rw [Ty.isStringLike_rename]
  split
  · exact moved_pure rfl
  · exact (moved_elementType h t).bind fun o => moved_pure (by cases o <;> rfl)

lemma moved_propertyType (t : Ty) (name : String) : Moved v c (Ty.rename v.place)
    (propertyType ask t name) (propertyType ask (t.rename v.place) name) := by
  unfold propertyType
  extract_lets last last'
  have hlast (lengthOf : Bool) :
      Moved v c (Ty.rename v.place) (last lengthOf) (last' lengthOf) := by
    cases lengthOf with
    | true => exact moved_pure rfl
    | false =>
      refine (moved_stripNullish h t).bind fun u => (moved_propertiesOf h u).bind fun ps => ?_
      have hfind : (ps.map (renameProperty v.place)).find? (·.name == name) =
          (ps.find? (·.name == name)).map (renameProperty v.place) := List.find?_map
      rw [hfind]
      generalize ps.find? (·.name == name) = found
      cases found with
      | none =>
        refine moved_pure ?_
        rw [Ty.mapValue?_rename]
        cases t.mapValue? <;> rfl
      | some p => exact moved_pure rfl
  split
  · exact (moved_hasLength h t).bind hlast
  · exact (moved_pure (r := id) rfl).bind hlast

lemma moved_memberType (e : Cursor) :
    Moved v c (Ty.rename v.place) (memberType ask e) (memberType ask e) := by
  unfold memberType
  split
  · exact moved_pure rfl
  · split
    · exact moved_enumMemberType _ _
    · exact (h.typeOf c _).bind fun t => moved_propertyType h t _

lemma moved_elementAccessType (e : Cursor) :
    Moved v c (Ty.rename v.place) (elementAccessType ask e) (elementAccessType ask e) := by
  refine (moved_typeOf? h _).bind fun t => (moved_elementType h t).bind fun element => ?_
  cases element with
  | some t => exact moved_pure rfl
  | none =>
    refine moved_pure ?_
    rw [Ty.mapValue?_rename]
    cases t.mapValue? <;> rfl

/-! ## Calls and operators -/

omit h in
/-- What is known about methods has no objects in it. -/
lemma methodResult_rename (receiver : Cursor) (method : String) (given : Bool) :
    (methodResult receiver method given).rename v.place = methodResult receiver method given := by
  have hrequest (t : Ty) (ht : requestResult? method given = some t) : t.rename v.place = t := by
    unfold requestResult? at ht
    cases given
    all_goals
      split at ht
      all_goals cases ht
      all_goals rfl
  unfold methodResult
  dsimp only
  split
  · rename_i t ht
    split at ht
    · exact hrequest t ht
    · cases ht
  · split_ifs <;> rfl

lemma moved_functionResult (callee : Cursor) :
    Moved v c (Ty.rename v.place) (functionResult ask callee) (functionResult ask callee) := by
  unfold functionResult
  split
  · exact moved_pure rfl
  · split
    · exact h.denoted c _
    · exact moved_pure rfl
    · split
      · exact moved_pure rfl
      · refine (h.typeOf c _).bind fun t => moved_pure ?_
        split <;> rfl

lemma moved_callType (e : Cursor) :
    Moved v c (Ty.rename v.place) (callType ask e) (callType ask e) := by
  unfold callType
  split
  · exact moved_pure rfl
  · dsimp only
    split
    · split
      · exact moved_pure (methodResult_rename _ _ _)
      · exact moved_pure rfl
    · split
      all_goals first
        | exact moved_pure rfl
        | exact moved_functionResult h _
    · exact moved_pure rfl

lemma moved_constructedType (e : Cursor) :
    Moved v c (Ty.rename v.place) (constructedType ask e) (constructedType ask e) := by
  refine (moved_typeArguments h e).bind fun args => ?_
  split
  · refine moved_pure ?_
    cases args <;> rfl
  · exact moved_pure (by rw [Ty.rename, Ty.renameAll_eq_map])

lemma moved_binaryType (e : Cursor) :
    Moved v c (Ty.rename v.place) (binaryType ask e) (binaryType ask e) := by
  unfold binaryType
  dsimp only
  split
  · exact moved_pure rfl
  · split
    · exact moved_pure rfl
    · split
      · refine (moved_typeOf? h _).bind fun l => (moved_typeOf? h _).bind fun r => ?_
        simp only [Ty.isStringLike_rename, Ty.isNumberLike_rename]
        split
        · exact moved_pure rfl
        · split <;> exact moved_pure rfl
      · split
        · refine (moved_typeOf? h _).bind fun l => (moved_stripNullish h l).bind fun l => ?_
          exact (moved_typeOf? h _).bind fun r => moved_makeUnion h [l, r]
        · split
          · exact moved_typeOf? h _
          · exact moved_pure rfl

omit h in
lemma moved_unaryType (e : Cursor) :
    Moved v c (Ty.rename v.place) (unaryType e) (unaryType e) := by
  unfold unaryType
  split
  · exact moved_pure rfl
  · exact moved_pure rfl
  · exact moved_pure rfl
  · refine (moved_ofNumbers _).bind fun n => ?_
    cases n <;> exact moved_pure rfl

lemma moved_castType (e : Cursor) :
    Moved v c (Ty.rename v.place) (castType ask e) (castType ask e) := by
  unfold castType
  split
  · split
    · exact h.denoted c _
    · exact moved_pure rfl
  · exact h.denoted c _
  · exact h.typeOf c _
  · exact moved_pure rfl

/-- The type of an expression is carried over. -/
theorem moved_expressionType (e : Cursor) :
    Moved v c (Ty.rename v.place) (expressionType ask e) (expressionType ask e) := by
  unfold expressionType
  split
  · refine moved_pure ?_
    cases e.stringValue? <;> rfl
  · refine moved_pure ?_
    cases e.stringValue? <;> rfl
  · refine (moved_ofNumbers _).bind fun n => ?_
    cases n <;> exact moved_pure rfl
  · exact moved_pure rfl
  · exact moved_pure rfl
  · exact moved_pure rfl
  · exact moved_pure rfl
  · exact moved_pure rfl
  · exact moved_nameType h e
  · exact moved_typeOf? h _
  · exact moved_typeOf? h _
  · exact moved_castType h e
  · exact moved_castType h e
  · exact (moved_typeOf? h _).bind fun t => moved_stripNullish h t
  · refine (moved_typeOf? h _).bind fun t => ?_
    cases t <;> exact moved_pure rfl
  · exact moved_objectLiteralType h e
  · exact moved_arrayLiteralType h e
  · exact moved_memberType h e
  · exact moved_elementAccessType h e
  · exact moved_callType h e
  · exact moved_constructedType h e
  · exact (moved_typeOf? h _).bind fun yes => (moved_typeOf? h _).bind fun no =>
      moved_makeUnion h [yes, no]
  · exact moved_binaryType h e
  · exact moved_unaryType e
  · exact moved_pure rfl
  · exact moved_typeOf? h _
  · exact moved_typeOf? h _
  · refine moved_pure ?_
    split <;> rfl

lemma moved_resolvedType (e : Cursor) :
    Moved v c (Ty.rename v.place) (resolvedType ask e) (resolvedType ask e) := by
  refine Moved.bind_read ?_
  rw [show (c.rename v.place).resolving = c.resolving from rfl]
  split
  · exact moved_pure rfl
  · exact Moved.changed (f := Context.inExpression e) (g := Context.inExpression e)
      (moved_expressionType h e) rfl rfl rfl

end

/-! ## Queries -/

section

variable {v : Relocation} {c : Context}

/-- **Queries are carried over**, at every depth. -/
theorem carries_answer (v : Relocation) (d : Nat) : Carries v (answer d) := by
  induction d with
  | zero =>
    exact ⟨fun _ _ => moved_throw _ _, fun _ _ => moved_throw _ _, fun _ _ => moved_throw _ _,
      fun _ _ => moved_throw _ _⟩
  | succ d ih =>
    exact ⟨fun _ e => moved_resolvedType ih e, fun _ e => moved_typeExpression ih e,
      fun _ t => moved_objectProperties ih t, fun _ t => moved_displayText ih t⟩

/-- So are the queries of the analysis. -/
lemma carries_ask (v : Relocation) : Carries v ask where
  typeOf c e := Moved.bind_read ((carries_answer v c.depth).typeOf c e)
  denoted c e := Moved.bind_read ((carries_answer v c.depth).denoted c e)
  properties c t := Moved.bind_read ((carries_answer v c.depth).properties c t)
  display c t := Moved.bind_read ((carries_answer v c.depth).display c t)

/-! ## Schemas -/

/-- What a renamed type is, one level deep. -/
def renameView (ρ : Nat → Nat) : Schema.View Ty Nat → Schema.View Ty Nat
  | .union members => .union (members.map (Ty.rename ρ))
  | .array element => .array (element.rename ρ)
  | .map value => .map (value.rename ρ)
  | .object identity members => .object (identity.map ρ) (members.map (renameProperty ρ))
  | view => view

lemma plainView?_rename (ρ : Nat → Nat) (t : Ty) :
    (t.rename ρ).plainView? = t.plainView?.map (renameView ρ) := by
  unfold Ty.plainView?
  rw [Ty.unionMembers?_rename, Ty.isStringLike_rename, Ty.isNumberLike_rename,
    Ty.isBooleanLike_rename, Ty.isNull_rename, Ty.isUndefined_rename]
  cases t.unionMembers? with
  | some members => rfl
  | none =>
    dsimp only [Option.map_none]
    split_ifs <;> rfl

lemma moved_view (t : Ty) : Moved v c (renameView v.place) (view t) (view (t.rename v.place)) := by
  have hdisplay : Moved v c (renameView v.place) (do return .other (← display t))
      (do return .other (← display (t.rename v.place))) :=
    ((carries_ask v).display c t).bind fun _ => moved_pure rfl
  rw [view_eq, view_eq, plainView?_rename]
  cases t.plainView? with
  | some w => exact moved_pure rfl
  | none =>
    refine (moved_elementType (carries_ask v) t).bind fun element => ?_
    cases element with
    | some element => exact moved_pure rfl
    | none =>
      cases t
      case map value => exact moved_pure rfl
      all_goals
        refine ((carries_ask v).properties c _).bind fun ps => ?_
        cases ps with
        | some ps => exact moved_pure rfl
        | none => exact hdisplay

lemma moved_describeMembers {describe : List Nat → Ty → Infer Schema}
    (h : ∀ inside u, Moved v c id (describe inside u)
      (describe (inside.map v.place) (u.rename v.place))) (inside : List Nat)
    (members : List Property) :
    Moved v c id (describeMembers describe inside members)
      (describeMembers describe (inside.map v.place) (members.map (renameProperty v.place))) := by
  refine (moved_mapM (r := id) fun p _ => ?_).bind fun properties => moved_pure ?_
  · exact (h inside p.type).bind fun _ => moved_pure rfl
  · rw [List.map_id]
    rfl

/-- One level of a schema. -/
lemma moved_describeWith {describe : List Nat → Ty → Infer Schema}
    (h : ∀ inside u, Moved v c id (describe inside u)
      (describe (inside.map v.place) (u.rename v.place))) (expanding : List Nat) (t : Ty) :
    Moved v c id (Schema.describeWith view Ty.isNullish describe expanding t)
      (Schema.describeWith view Ty.isNullish describe (expanding.map v.place)
        (t.rename v.place)) := by
  unfold Schema.describeWith
  refine (moved_view t).bind fun view => ?_
  match view with
  | .union members =>
    have hany : (members.map (Ty.rename v.place)).any Ty.isNullish = members.any Ty.isNullish := by
      rw [List.any_map]
      exact congrArg members.any (funext (Ty.isNullish_rename v.place))
    have hfilter : (members.map (Ty.rename v.place)).filter (fun p => !p.isNullish) =
        (members.filter fun p => !p.isNullish).map (Ty.rename v.place) := by
      simp only [List.filter_map, Function.comp_def, Ty.isNullish_rename]
    simp only [renameView, hany, hfilter]
    generalize members.filter (fun p => !p.isNullish) = rest
    match rest with
    | [] => exact moved_pure rfl
    | [u] => exact (h expanding u).bind fun _ => moved_pure rfl
    | u :: u' :: rest =>
      refine (moved_mapM (r := id) (l := u :: u' :: rest) fun t _ => h expanding t).bind
        fun schemas => moved_pure ?_
      rw [List.map_id]
      rfl
  | .primitive _ | .undefined | .other _ => exact moved_pure rfl
  | .array element => exact (h expanding element).bind fun _ => moved_pure rfl
  | .map value => exact (h expanding value).bind fun _ => moved_pure rfl
  | .object none members => exact moved_describeMembers h expanding members
  | .object (some id) members =>
    have hinside : (expanding.map v.place).contains (v.place id) = expanding.contains id := by
      rw [Bool.eq_iff_iff, List.contains_iff_mem, List.contains_iff_mem,
        List.mem_map_of_injective v.injective]
    simp only [renameView, Option.map_some, hinside]
    split
    · exact moved_pure rfl
    · exact moved_describeMembers h (id :: expanding) members

lemma moved_synthesize (level : Nat) (expanding : List Nat) (t : Ty) : Moved v c id
    (Schema.synthesize view Ty.isNullish (throw .exhausted) level expanding t)
    (Schema.synthesize view Ty.isNullish (throw .exhausted) level (expanding.map v.place)
      (t.rename v.place)) := by
  induction level generalizing expanding t with
  | zero => exact moved_throw _ _
  | succ level ih => exact moved_describeWith ih expanding t

/-- Schemas are the same in both stores. -/
lemma moved_schemaOf (t : Ty) : Moved v c id (schemaOf t) (schemaOf (t.rename v.place)) :=
  Moved.bind_read (moved_synthesize c.depth [] t)

end

end RouteScribe.Typing
