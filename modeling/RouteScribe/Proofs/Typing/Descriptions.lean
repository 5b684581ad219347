import RouteScribe.Proofs.Typing.Runs

/-!
# How the schema of a type is put together

The schema of a type is described level by level: the type is seen as a list, a map, an object and so
on (`Sees`), and the types in it are described in their turn (`Describes`).  There is one rule for each
way in which a type is seen.  The levels of description and the depth of queries are both bounds that
have nothing to do with the result, so `Describes` says what comes out once both are large enough.

To see an object works out its properties, and so may change the store.  The rule for objects takes
the properties to be described in the store after that.
-/

namespace RouteScribe.Typing

open Filter Infer

/-- The kind of the values of a type that holds values of one primitive kind. -/
def Ty.kind? : Ty → Option PrimitiveKind
  | .primitive .string | .literal (.string _) | .enumMember _ _ (some (.text _)) => some .string
  | .primitive .number | .primitive .bigint | .literal (.number _) | .enumMember _ _ _ =>
    some .number
  | .primitive .boolean | .literal (.boolean _) => some .boolean
  | .primitive .null | .primitive .undefined | .primitive .void => some .null
  | _ => none

/-- Types about whose values nothing is known. -/
def Ty.isOpaque : Ty → Bool
  | .primitive .symbol | .primitive .any | .primitive .unknown | .primitive .never
  | .primitive .object | .promise _ | .named _ _ | .function _ => true
  | _ => false

section

variable (c : Context) (s : Store)

/-- What a type is, one level deep, and the store after it was looked at. -/
def Sees (t : Ty) (w : Schema.View Ty Nat) (s' : Store) : Prop :=
  ∀ᶠ d in atTop, (view t).exec (c.atDepth d) s = (.ok w, s')

/-- The description of a type below the objects that are being described ends with a schema, for
sufficiently many levels of description and of queries. -/
def Describes (above : List Nat) (t : Ty) (schema : Schema) (s' : Store) : Prop :=
  ∀ᶠ p in atTop ×ˢ atTop, (Schema.synthesize view Ty.isNullish (throw .exhausted) p.1 above t).exec
    (c.atDepth p.2) s = (.ok schema, s')

end

section

variable {c : Context} {s s₁ s₂ : Store} {above : List Nat} {t : Ty} {schema : Schema}

lemma eventually_succ {P : ℕ × ℕ → Prop} (h : ∀ᶠ p in atTop ×ˢ atTop, P (p.1 + 1, p.2)) :
    ∀ᶠ p in atTop ×ˢ atTop, P p := by
  rw [prod_atTop_atTop_eq] at h ⊢
  obtain ⟨⟨n, d⟩, h⟩ := eventually_atTop.1 h
  refine eventually_atTop.2 ⟨(n + 1, d), fun p hp => ?_⟩
  obtain ⟨hn, hd⟩ := Prod.mk_le_mk.1 hp
  have hsucc : p = (p.1 - 1 + 1, p.2) := by
    rw [Nat.sub_add_cancel (by omega)]
  rw [hsucc]
  exact h (p.1 - 1, p.2) (Prod.mk_le_mk.2 ⟨by omega, hd⟩)

/-! ## What types are -/

lemma sees_of_gives {w : Schema.View Ty Nat} (h : Gives (fun d => (view t).toDepth d) c s (.ok w, s₁)) :
    Sees c s t w s₁ :=
  h.mono fun _ h => h 0

lemma sees_of_kind {kind : PrimitiveKind} (h : t.kind? = some kind) :
    Sees c s t (if t.isUndefined then .undefined else .primitive kind) s := by
  refine .of_forall fun d => ?_
  match t, h with
  | .primitive p, h => cases p <;> cases h <;> rfl
  | .literal l, h => cases l <;> cases h <;> rfl
  | .enumMember _ _ none, h => cases h; rfl
  | .enumMember _ _ (some (.text _)), h => cases h; rfl
  | .enumMember _ _ (some (.number _)), h => cases h; rfl

lemma sees_object {id : Nat} {ps : List Property}
    (h : Gives (fun d => answer d _ (.properties (.object id))) c s (.ok (some ps), s₁)) :
    Sees c s (.object id) (.object (some id) ps) s₁ :=
  sees_of_gives (h.toDepth.bind (gives_pure _))

/-- A type about whose values nothing is known is seen by its text. -/
lemma sees_of_isOpaque {text : String} (h : t.isOpaque = true)
    (htext : Gives (fun d => answer d _ (.display t)) c s (.ok text, s)) :
    Sees c s t (.other text) s := by
  have hnone : Gives (fun d => answer d _ (.properties t)) c s (.ok none, s) := by
    refine .answer ?_
    cases t with
    | object id => cases h
    | _ => exact gives_pure _
  refine sees_of_gives ?_
  cases t with
  | primitive p =>
    cases p with
    | string | number | boolean | bigint | null | undefined | void => cases h
    | _ => exact hnone.toDepth.bind (htext.toDepth.bind (gives_pure _))
  | promise _ => exact hnone.toDepth.bind (htext.toDepth.bind (gives_pure _))
  | named _ _ => exact hnone.toDepth.bind (htext.toDepth.bind (gives_pure _))
  | function _ => exact hnone.toDepth.bind (htext.toDepth.bind (gives_pure _))
  | _ => cases h

/-! ## What schemas are put together from -/

/-- How many levels of description there are does not matter to what a type is. -/
lemma Sees.prod {w : Schema.View Ty Nat} (h : Sees c s t w s₁) :
    ∀ᶠ p : ℕ × ℕ in atTop ×ˢ atTop, (view t).exec (c.atDepth p.2) s = (.ok w, s₁) :=
  Eventually.prod_inr h _

/-- The description of the parts of a type. -/
lemma eventually_mapM {α β : Type} {f : ℕ × ℕ → α → Infer β} {b : α → β} {l : List α}
    (h : ∀ a ∈ l, ∀ᶠ p in atTop ×ˢ atTop, (f p a).exec (c.atDepth p.2) s = (.ok (b a), s)) :
    ∀ᶠ p in atTop ×ˢ atTop, (l.mapM (f p)).exec (c.atDepth p.2) s = (.ok (l.map b), s) := by
  filter_upwards [(eventually_all_finite l.finite_toSet).2 h] with p h
  exact exec_mapM h

namespace Sees

lemma describes_primitive {kind : PrimitiveKind} (h : Sees c s t (.primitive kind) s₁) :
    Describes c s above t (.primitive kind none false) s₁ := by
  refine eventually_succ ?_
  filter_upwards [h.prod] with p hview
  rw [Schema.synthesize, Schema.describeWith, exec_bind_ok hview]
  rfl

lemma describes_undefined (h : Sees c s t .undefined s₁) :
    Describes c s above t (.unparsed none true) s₁ := by
  refine eventually_succ ?_
  filter_upwards [h.prod] with p hview
  rw [Schema.synthesize, Schema.describeWith, exec_bind_ok hview]
  rfl

lemma describes_other {text : String} (h : Sees c s t (.other text) s₁) :
    Describes c s above t (.unparsed (some ("Unparsed type: " ++ text)) false) s₁ := by
  refine eventually_succ ?_
  filter_upwards [h.prod] with p hview
  rw [Schema.synthesize, Schema.describeWith, exec_bind_ok hview]
  rfl

lemma describes_array {element : Ty} (h : Sees c s t (.array element) s₁)
    (hs : Describes c s₁ above element schema s₂) : Describes c s above t (.array schema false) s₂ := by
  refine eventually_succ ?_
  filter_upwards [h.prod, hs] with p hview hs
  rw [Schema.synthesize, Schema.describeWith, exec_bind_ok hview]
  exact exec_bind_ok hs

lemma describes_map {value : Ty} (h : Sees c s t (.map value) s₁)
    (hs : Describes c s₁ above value schema s₂) : Describes c s above t (.map schema false) s₂ := by
  refine eventually_succ ?_
  filter_upwards [h.prod, hs] with p hview hs
  rw [Schema.synthesize, Schema.describeWith, exec_bind_ok hview]
  exact exec_bind_ok hs

lemma describes_marker {id : Nat} {members : List Property}
    (h : Sees c s t (.object (some id) members) s₁) (hid : id ∈ above) :
    Describes c s above t .recursive s₁ := by
  refine eventually_succ ?_
  filter_upwards [h.prod] with p hview
  rw [Schema.synthesize, Schema.describeWith, exec_bind_ok hview]
  simp only [List.contains_iff_mem, hid, if_true]
  rfl

lemma describes_object {id : Nat} {members : List Property} {part : Property → Schema}
    (h : Sees c s t (.object (some id) members) s₁) (hid : id ∉ above)
    (hs : ∀ m ∈ members, Describes c s₁ (id :: above) m.type (part m) s₁) :
    Describes c s above t
      (.ofProperties (members.map fun m => (m.name, m.optional, part m))) s₁ := by
  have hmembers : ∀ m ∈ members, ∀ᶠ p in atTop ×ˢ atTop,
      (do
        let s ← Schema.synthesize view Ty.isNullish (throw .exhausted) p.1 (id :: above) m.type
        return (m.name, m.optional, s) : Infer (String × Bool × Schema)).exec
        (c.atDepth p.2) s₁ = (.ok (m.name, m.optional, part m), s₁) := by
    intro m hm
    filter_upwards [hs m hm] with p hs
    exact exec_bind_ok hs
  refine eventually_succ ?_
  filter_upwards [h.prod, eventually_mapM hmembers] with p hview hmap
  rw [Schema.synthesize, Schema.describeWith, exec_bind_ok hview]
  simp only [List.contains_iff_mem, hid, if_false]
  rw [exec_bind_ok hmap]
  rfl

end Sees

/-- The entry point of descriptions has as many levels of description as of queries. -/
lemma Describes.schemaOf (h : Describes c s [] t schema s₁) :
    ∀ᶠ d in atTop, (schemaOf t).exec (c.atDepth d) s = (.ok schema, s₁) :=
  h.diag_of_prod

end

end RouteScribe.Typing
