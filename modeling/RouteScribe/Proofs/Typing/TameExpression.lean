import RouteScribe.Proofs.Typing.TameDenotation

/-!
# Expressions are typed tamely

The functions that give expressions their types, one by one.  An expression asks for the types of
its parts, of the variables it names and of the functions it calls, in a context where it counts as
being worked out itself (`tame_resolvedType`); so each question about an expression leaves one
expression less to ask about.

Costs are counted in units (`unit`): what one question about an expression or a type expression can
cost.
-/

namespace RouteScribe.Typing

open Infer
open Source (Node Cursor)

/-- What one question about an expression, or about a type expression, can cost. -/
def Setting.unit (w : Setting) (c : Context) : Nat :=
  typeCost w.root.size (w.pending c) + 2 * w.root.size

section

variable {w : Setting} {m k n : Nat} {c : Context} {asks : Nat → Answers} {e : Cursor}
  (h : Asks w m k c asks) (hk : w.root.size < k)

include h

lemma tame_typeOf (he : Source.Within w.root e) :
    Tame w m c (w.unit c) fun d => asks d _ (.typeOf e) :=
  (h.typeOf e he).mono (Nat.le_add_right _ _)

lemma tame_typeOf? {e? : Option Cursor} (he : ∀ e, e? = some e → Source.Within w.root e) :
    Tame w m c (w.unit c) fun d => typeOf? (asks d) e? := by
  rcases e? with - | e
  · exact tame_pure _
  · exact tame_typeOf h (he e rfl)

lemma tame_part (he : Source.Within w.root e) (role : Source.Role) :
    Tame w m c (w.unit c) fun d => typeOf? (asks d) (e.child? role) :=
  tame_typeOf? h fun _ hchild => he.child hchild

lemma tame_firstPart (he : Source.Within w.root e) :
    Tame w m c (w.unit c) fun d => typeOf? (asks d) e.named.head? :=
  tame_typeOf? h fun _ hhead => he.named (List.mem_of_head? hhead)

lemma tame_propertyType (t : Ty) (name : String) :
    Tame w m c 0 fun d => propertyType (asks d) t name := by
  have hlength : Tame w m c 0 fun d => hasLength (asks d) t := by
    unfold hasLength
    split
    · exact tame_pure _
    · exact (tame_elementType h.display t).bind_last fun _ => tame_pure _
  unfold propertyType
  dsimp only
  split
  case' isTrue => refine hlength.bind_free ?_
  case' isFalse => refine (tame_pure false).bind_free ?_
  -- What follows is the same work in both cases.
  all_goals
    intro lengthOf
    split
    · exact tame_pure _
    · refine (tame_filterUnion h.display _ t).bind_free fun u => ?_
      refine (tame_propertiesOf (h.properties u)).bind_last fun ps => ?_
      split <;> exact tame_pure _

include hk

lemma tame_denoted (he : Source.Within w.root e) :
    Tame w m c (w.unit c) fun d => asks d _ (.denoted e) := by
  have hsize := he.size_le
  refine (h.denoted e he (by omega)).mono ?_
  unfold Setting.unit
  omega

lemma tame_nameType (he : Source.Within w.root e) :
    Tame w m c (w.unit c) fun d => nameType (asks d) e := by
  unfold nameType
  split
  · exact tame_pure _
  · split
    · exact tame_pure _
    · rename_i declaration hdeclaration
      have hd := he.declaration hdeclaration
      split
      · split
        · rename_i annotation hannotation
          exact tame_denoted h hk (hd.child hannotation)
        · exact tame_pure _
        · rename_i value _ hvalue
          refine (tame_typeOf h (hd.child hvalue)).bind_last fun t => ?_
          split
          · exact tame_pure _
          · exact tame_widen h.display t
      · split
        · rename_i annotation hannotation
          exact tame_denoted h hk (hd.child hannotation)
        · exact tame_pure _
      · split
        · rename_i annotation hannotation
          exact (tame_denoted h hk (hd.child hannotation)).bind_last fun t => tame_withUndefined h t
        · exact tame_pure _
      · exact tame_pure _
      · exact tame_pure _
      · exact tame_pure _

/-! ## Objects, members and calls -/

lemma tame_literalMember (he : Source.Within w.root e) :
    Tame w m c (w.unit c) fun d => literalMember (asks d) e := by
  unfold literalMember
  dsimp only
  split
  · split
    · exact tame_pure _
    · refine (tame_part h he _).bind_last fun t => ?_
      exact (tame_widen h.display t).bind_last fun _ => tame_pure _
  · refine (tame_nameType h hk he).bind_last fun t => ?_
    exact (tame_widen h.display t).bind_last fun _ => tame_pure _
  · exact tame_pure _
  · exact (tame_firstPart h he).bind_last fun t => tame_propertiesOf (h.properties t)
  · exact tame_pure _

omit h hk in
/-- A question for each of some parts of a node. -/
lemma tame_parts {β : Type} {f : Nat → Cursor → Infer β} (he : Source.Within w.root e)
    {parts : List Cursor} (hparts : parts.Sublist e.named)
    (hf : ∀ p ∈ parts, Tame w m c (w.unit c) fun d => f d p) :
    Tame w m c (w.root.size * w.unit c) fun d => parts.mapM (f d) := by
  refine (tame_mapM hf).mono ?_
  have hlength : e.named.length ≤ e.size := by
    have hsum := e.sum_size_named_lt
    have hle : e.named.length ≤ (e.named.map Cursor.size).sum := by
      rw [← List.length_map Cursor.size]
      refine List.length_le_sum_of_one_le _ fun i hi => ?_
      obtain ⟨p, -, rfl⟩ := List.mem_map.1 hi
      exact p.node.size_pos
    omega
  simp only [List.map_const', List.sum_replicate, smul_eq_mul]
  exact Nat.mul_le_mul_right _ (hparts.length_le.trans (hlength.trans he.size_le))

lemma tame_objectLiteralType (he : Source.Within w.root e) :
    Tame w m c (w.root.size * w.unit c + 1) fun d => objectLiteralType (asks d) e :=
  (tame_parts he (List.Sublist.refl _) fun _ hp => tame_literalMember h hk (he.named hp)).bind
    fun _ => tame_newObject trivial le_rfl

omit hk in
lemma tame_arrayLiteralType (he : Source.Within w.root e) :
    Tame w m c (w.root.size * w.unit c) fun d => arrayLiteralType (asks d) e := by
  unfold arrayLiteralType
  dsimp only
  split
  · exact tame_pure _
  · refine (tame_parts he List.filter_sublist fun p hp => ?_).bind_last fun ts => ?_
    · have hp' := he.named (List.mem_filter.1 hp).1
      exact (tame_typeOf h hp').bind_last fun t => tame_widen h.display t
    · exact (tame_makeUnion h.display ts).bind_last fun _ => tame_pure _

omit hk in
lemma tame_memberType (he : Source.Within w.root e) :
    Tame w m c (w.unit c) fun d => memberType (asks d) e := by
  unfold memberType
  split
  · exact tame_pure _
  · rename_i name object hmember
    split
    · exact tame_enumMemberType _ _
    · exact (tame_typeOf h (he.member hmember)).bind_last fun t => tame_propertyType h t name

omit hk in
lemma tame_elementAccessType (he : Source.Within w.root e) :
    Tame w m c (w.unit c) fun d => elementAccessType (asks d) e := by
  refine (tame_part h he _).bind_last fun t => ?_
  refine (tame_elementType h.display t).bind_last fun element => ?_
  split <;> exact tame_pure _

lemma tame_functionResult (he : Source.Within w.root e) :
    Tame w m c (w.unit c) fun d => functionResult (asks d) e := by
  unfold functionResult
  split
  · exact tame_pure _
  · rename_i f hf
    obtain ⟨declaration, hdeclaration, hfunction⟩ := Option.bind_eq_some_iff.1 hf
    have hwithin := (he.declaration hdeclaration).declaredFunction hfunction
    split
    · rename_i annotation hannotation
      exact tame_denoted h hk (hwithin.child hannotation)
    · exact tame_pure _
    · rename_i body _ hbody
      split
      · exact tame_pure _
      · exact (tame_typeOf h (hwithin.child hbody)).bind_last fun _ => tame_pure _

lemma tame_callType (he : Source.Within w.root e) :
    Tame w m c (w.unit c) fun d => callType (asks d) e := by
  unfold callType
  split
  · exact tame_pure _
  · rename_i callee hcallee
    dsimp only
    split
    · split <;> exact tame_pure _
    · split
      all_goals first
        | exact tame_pure _
        | exact tame_functionResult h hk (he.child hcallee).unwrap
    · exact tame_pure _

lemma tame_constructedType (he : Source.Within w.root e) :
    Tame w m c (w.unit c) fun d => constructedType (asks d) e := by
  have hsize := he.size_le
  have hunit : 2 * (e.size - 1) ≤ w.unit c := by
    unfold Setting.unit
    omega
  refine ((tame_typeArguments h he (by omega)).mono hunit).bind_last fun args => ?_
  split <;> exact tame_pure _

/-! ## Operators and casts -/

omit hk in
lemma tame_binaryType (he : Source.Within w.root e) :
    Tame w m c (2 * w.unit c) fun d => binaryType (asks d) e := by
  have htwo : w.unit c + w.unit c ≤ 2 * w.unit c := by omega
  have hone : w.unit c ≤ 2 * w.unit c := by omega
  unfold binaryType
  dsimp only
  split
  · exact tame_pure _
  · split
    · exact tame_pure _
    · split
      · refine ((tame_part h he _).bind fun l => (tame_part h he _).bind_last fun r => ?_).mono htwo
        split
        · exact tame_pure _
        · split <;> exact tame_pure _
      · split
        · refine ((tame_part h he _).bind fun l => ?_).mono htwo
          refine (tame_filterUnion h.display _ l).bind_free fun l' => ?_
          exact (tame_part h he _).bind_last fun r => tame_makeUnion h.display _
        · split
          · exact (tame_part h he _).mono hone
          · exact tame_pure _

omit h hk in
lemma tame_unaryType (e : Cursor) : Tame w m c n fun _ => unaryType e := by
  unfold unaryType
  split
  · exact tame_pure _
  · exact tame_pure _
  · exact tame_pure _
  · refine ((tame_ofNumbers _).bind_last fun value => ?_).mono (Nat.zero_le n)
    split <;> exact tame_pure _

lemma tame_castType (he : Source.Within w.root e) :
    Tame w m c (w.unit c) fun d => castType (asks d) e := by
  unfold castType
  split
  · rename_i types rest _ hnamed
    have htypes : types ∈ e.named := by simp [hnamed]
    split
    · rename_i t ht
      exact tame_denoted h hk ((he.named htypes).named (List.mem_of_head? ht))
    · exact tame_pure _
  · rename_i first type rest hnamed _
    exact tame_denoted h hk (he.named (by simp [hnamed]))
  · rename_i value hnamed _
    exact tame_typeOf h (he.named (by simp [hnamed]))
  · exact tame_pure _

/-- The type of an expression costs one object, and a question for each part and two more. -/
theorem tame_expressionType (he : Source.Within w.root e) :
    Tame w m c (1 + (w.root.size + 2) * w.unit c) fun d => expressionType (asks d) e := by
  have hmany : w.root.size * w.unit c + 1 ≤ 1 + (w.root.size + 2) * w.unit c := by
    rw [Nat.add_mul]
    omega
  have htwo : 2 * w.unit c ≤ 1 + (w.root.size + 2) * w.unit c := by
    rw [Nat.add_mul]
    omega
  have hone : w.unit c ≤ 1 + (w.root.size + 2) * w.unit c := by omega
  have hfirst := (tame_firstPart h he).mono hone
  unfold expressionType
  split
  · exact tame_pure _
  · exact tame_pure _
  · refine ((tame_ofNumbers _).bind_last fun value => ?_).mono (Nat.zero_le _)
    split <;> exact tame_pure _
  · exact tame_pure _
  · exact tame_pure _
  · exact tame_pure _
  · exact tame_pure _
  · exact tame_pure _
  · exact (tame_nameType h hk he).mono hone
  · exact hfirst
  · exact hfirst
  · exact (tame_castType h hk he).mono hone
  · exact (tame_castType h hk he).mono hone
  · exact hfirst.bind_last fun t => tame_filterUnion h.display _ t
  · refine hfirst.bind_last fun t => ?_
    split <;> exact tame_pure _
  · exact (tame_objectLiteralType h hk he).mono hmany
  · exact (tame_arrayLiteralType h he).mono (by omega)
  · exact (tame_memberType h he).mono hone
  · exact (tame_elementAccessType h he).mono hone
  · exact (tame_callType h hk he).mono hone
  · exact (tame_constructedType h hk he).mono hone
  · refine ((tame_part h he _).bind fun yes => (tame_part h he _).bind_last fun no => ?_).mono
      (show w.unit c + w.unit c ≤ _ by omega)
    exact tame_makeUnion h.display _
  · exact (tame_binaryType h he).mono htwo
  · exact tame_unaryType e
  · exact tame_pure _
  · exact (tame_part h he _).mono hone
  · exact (tame_typeOf? h fun _ hlast => he.named (List.mem_of_getLast? hlast)).mono hone
  · exact tame_pure _

end

/-! ## Expressions that are being worked out -/

section

variable {w : Setting} {m k : Nat} {c : Context} {asks : Nat → Answers} {e : Cursor}

lemma typeCost_mono (size : Nat) : Monotone (typeCost size) := by
  refine monotone_nat_of_le_succ fun k => ?_
  rw [typeCost]
  have hle : typeCost size k + 2 * size ≤ (size + 2) * (typeCost size k + 2 * size) :=
    Nat.le_mul_of_pos_left _ (by omega)
  omega

lemma Setting.pending_inExpression (he : Source.Within w.root e) (hopen : e.key ∉ c.resolving) :
    w.pending (c.inExpression e) < w.pending c :=
  card_sdiff_cons_lt he.key_mem hopen

/-- An expression that is not being worked out leaves less to do. -/
lemma tame_resolvedType (he : Source.Within w.root e) (h : Asks w m k (c.inExpression e) asks)
    (hk : w.root.size < k) :
    Tame w (m + 1) c (typeCost w.root.size (w.pending c)) fun d => resolvedType (asks d) e := by
  refine Tame.bind_read ?_ fun _ _ => rfl
  by_cases hopen : e.key ∈ c.resolving
  · simp only [List.contains_iff_mem, hopen, if_true]
    exact tame_pure _
  · simp only [List.contains_iff_mem, hopen, if_false]
    have hpending := w.pending_inExpression he hopen
    have hcost : 1 + (w.root.size + 2) * w.unit (c.inExpression e) ≤
        typeCost w.root.size (w.pending c) :=
      typeCost_mono w.root.size (Nat.succ_le_of_lt hpending)
    refine ((tame_expressionType h hk he).mono hcost).changed (fun _ => rfl) (fun _ => rfl)
      fun _ s _ hm _ => .inl ?_
    have hless : w.remaining (c.inExpression e) s < w.remaining c s := by
      unfold Setting.remaining
      simp only [Context.inExpression] at hpending ⊢
      omega
    omega

end

end RouteScribe.Typing
