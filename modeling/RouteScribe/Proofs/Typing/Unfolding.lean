import RouteScribe.Proofs.Typing.Descriptions
import RouteScribe.Proofs.Typing.Graph

/-!
# How a graph of types unfolds into a schema

An `Unfolding` is a tree that a type of a graph is unfolded into: a reference to an object either is
expanded, with an unfolding for each of its properties, or is left as a marker.  `Unfolds` says when
a tree unfolds a type; it does not say which references are expanded, so an object that refers to
itself has one unfolding for every way to stop.

The main result, `exists_guarded_unfolding`, says which one the schema of a type is made from: on the
way down from the root no object is expanded twice, and a reference is a marker exactly when the
object it refers to is being expanded above it.  The guard sees only what is above a reference, so
references to one object beside each other are all expanded.  The measure is the number of objects
of the graph that are not being expanded, and the size of the type below that.
-/

namespace RouteScribe.Typing

open Filter Infer

/-- What a type is unfolded into. -/
inductive Unfolding where
  /-- A type without parts. -/
  | leaf (schema : Schema)
  | array (element : Unfolding)
  | map (value : Unfolding)
  /-- The members of a union that hold values other than `null`. -/
  | union (nullable : Bool) (variants : List Unfolding)
  /-- A reference to an object that is not expanded. -/
  | marker (id : Nat)
  /-- An object that is expanded: the names of its properties, which of them are optional, and what
  they are unfolded into. -/
  | object (id : Nat) (members : List (String × Bool × Unfolding))

namespace Unfolding

instance : Inhabited Unfolding := ⟨.marker 0⟩

/-- The schema of a union from those of its members that hold values other than `null`. -/
def unionSchema (nullable : Bool) : List Schema → Schema
  | [] => .unparsed none true
  | [s] => if nullable then s.orNull else s
  | schemas => Schema.ofVariants nullable schemas

/-- The schema that an unfolding stands for; markers stand for themselves. -/
def schema : Unfolding → Schema
  | .leaf s => s
  | .array element => .array element.schema false
  | .map value => .map value.schema false
  | .union nullable variants => unionSchema nullable (variants.map schema)
  | .marker _ => .recursive
  | .object _ members => .ofProperties (members.map fun m => (m.1, m.2.1, m.2.2.schema))
decreasing_by
  all_goals simp_wf
  · have hsize := List.sizeOf_lt_of_mem ‹_ ∈ variants›
    omega
  · rename_i m hm
    have hsize := List.sizeOf_lt_of_mem hm
    obtain ⟨name, optional, u⟩ := m
    simp only [Prod.mk.sizeOf_spec] at hsize ⊢
    omega

/-- `Occurs path v u`: the unfolding `v` stands in `u`, below the expanded objects of `path`, from
the root down. -/
inductive Occurs : List Nat → Unfolding → Unfolding → Prop
  | here {u : Unfolding} : Occurs [] u u
  | array {path : List Nat} {v element : Unfolding} :
    Occurs path v element → Occurs path v (.array element)
  | map {path : List Nat} {v value : Unfolding} : Occurs path v value → Occurs path v (.map value)
  | union {path : List Nat} {v variant : Unfolding} {nullable : Bool} {variants : List Unfolding} :
    variant ∈ variants → Occurs path v variant → Occurs path v (.union nullable variants)
  | object {path : List Nat} {v member : Unfolding} {id : Nat} {name : String} {optional : Bool}
      {members : List (String × Bool × Unfolding)} :
    (name, optional, member) ∈ members → Occurs path v member →
    Occurs (id :: path) v (.object id members)

/-- An unfolding below the expanded objects of `above`: no object is expanded below itself, and the
references to objects that are being expanded, and no others, are markers. -/
structure Guarded (above : List Nat) (u : Unfolding) : Prop where
  nodup : ∀ {path v}, Occurs path v u → path.Nodup ∧ ∀ id ∈ path, id ∉ above
  mem_of_marker : ∀ {path id}, Occurs path (.marker id) u → id ∈ path ∨ id ∈ above
  not_mem_of_object : ∀ {path id members}, Occurs path (.object id members) u →
    id ∉ path ∧ id ∉ above

section

variable {above : List Nat}

lemma guarded_leaf (s : Schema) : (leaf s).Guarded above where
  nodup := by rintro _ _ ⟨⟩; simp
  mem_of_marker := by rintro _ _ ⟨⟩
  not_mem_of_object := by rintro _ _ _ ⟨⟩

lemma guarded_marker {id : Nat} (h : id ∈ above) : (marker id).Guarded above where
  nodup := by rintro _ _ ⟨⟩; simp
  mem_of_marker := by rintro _ _ ⟨⟩; exact .inr h
  not_mem_of_object := by rintro _ _ _ ⟨⟩

lemma Guarded.array {element : Unfolding} (h : element.Guarded above) :
    (array element).Guarded above where
  nodup := by
    rintro _ _ (_ | hv)
    · simp
    · exact h.nodup hv
  mem_of_marker := by
    rintro _ _ (_ | hv)
    exact h.mem_of_marker hv
  not_mem_of_object := by
    rintro _ _ _ (_ | hv)
    exact h.not_mem_of_object hv

lemma Guarded.map {value : Unfolding} (h : value.Guarded above) : (map value).Guarded above where
  nodup := by
    rintro _ _ (_ | _ | hv)
    · simp
    · exact h.nodup hv
  mem_of_marker := by
    rintro _ _ (_ | _ | hv)
    exact h.mem_of_marker hv
  not_mem_of_object := by
    rintro _ _ _ (_ | _ | hv)
    exact h.not_mem_of_object hv

lemma guarded_union {nullable : Bool} {variants : List Unfolding}
    (h : ∀ u ∈ variants, u.Guarded above) : (union nullable variants).Guarded above where
  nodup := by
    rintro _ _ (_ | _ | _ | ⟨hmem, hv⟩)
    · simp
    · exact (h _ hmem).nodup hv
  mem_of_marker := by
    rintro _ _ (_ | _ | _ | ⟨hmem, hv⟩)
    exact (h _ hmem).mem_of_marker hv
  not_mem_of_object := by
    rintro _ _ _ (_ | _ | _ | ⟨hmem, hv⟩)
    exact (h _ hmem).not_mem_of_object hv

/-- An object that is not being expanded may be expanded, and is being expanded below. -/
lemma guarded_object {id : Nat} {members : List (String × Bool × Unfolding)} (hid : id ∉ above)
    (h : ∀ m ∈ members, m.2.2.Guarded (id :: above)) : (object id members).Guarded above where
  nodup := by
    rintro _ _ (_ | _ | _ | _ | ⟨hmem, hv⟩)
    · simp
    · obtain ⟨hnodup, habove⟩ := (h _ hmem).nodup hv
      simp only [List.mem_cons, not_or] at habove
      refine ⟨List.nodup_cons.2 ⟨fun hin => (habove id hin).1 rfl, hnodup⟩, fun i hi => ?_⟩
      rcases List.mem_cons.1 hi with rfl | hi
      · exact hid
      · exact (habove i hi).2
  mem_of_marker := by
    rintro _ i (_ | _ | _ | _ | ⟨hmem, hv⟩)
    rcases (h _ hmem).mem_of_marker hv with hpath | habove
    · exact .inl (List.mem_cons_of_mem _ hpath)
    · rcases List.mem_cons.1 habove with rfl | habove
      · exact .inl List.mem_cons_self
      · exact .inr habove
  not_mem_of_object := by
    rintro _ i _ (_ | _ | _ | _ | ⟨hmem, hv⟩)
    · exact ⟨by simp, hid⟩
    · obtain ⟨hpath, habove⟩ := (h _ hmem).not_mem_of_object hv
      simp only [List.mem_cons, not_or] at habove
      exact ⟨by simp [habove.1, hpath], habove.2⟩

end

end Unfolding

/-- A tree that unfolds a type of a graph.  Every reference to an object may be expanded or not. -/
inductive Unfolds (g : TypeGraph) : Ty → Unfolding → Prop
  | kind {t : Ty} {kind : PrimitiveKind} : t.kind? = some kind → t.isUndefined = false →
    Unfolds g t (.leaf (.primitive kind none false))
  | undefined {t : Ty} : t.isUndefined = true → Unfolds g t (.leaf (.unparsed none true))
  | isOpaque {t : Ty} (text : String) : t.isOpaque = true →
    Unfolds g t (.leaf (.unparsed (some ("Unparsed type: " ++ text)) false))
  | array {element : Ty} {u : Unfolding} : Unfolds g element u →
    Unfolds g (.array element) (.array u)
  /-- The elements of a tuple belong to the union of its types. -/
  | tuple {elements : List Ty} {element : Ty} {u : Unfolding} : elements ≠ [] →
    g.IsUnion elements element → Unfolds g element u → Unfolds g (.tuple elements) (.array u)
  | emptyTuple {u : Unfolding} : Unfolds g .any u → Unfolds g (.tuple []) (.array u)
  | map {value : Ty} {u : Unfolding} : Unfolds g value u → Unfolds g (.map value) (.map u)
  | union {members : List Ty} (u : Ty → Unfolding) :
    (∀ m ∈ members, m.isNullish = false → Unfolds g m (u m)) →
    Unfolds g (.union members)
      (.union (members.any Ty.isNullish) ((members.filter fun m => !m.isNullish).map u))
  | marker (id : Nat) : Unfolds g (.object id) (.marker id)
  | object {id : Nat} (u : Property → Unfolding) :
    (∀ p ∈ g.properties id, Unfolds g p.type (u p)) →
    Unfolds g (.object id) (.object id ((g.properties id).map fun p => (p.name, p.optional, u p)))

/-! ## One level -/

/-- The members of a union that hold values are described, and the others leave a mark. -/
lemma exec_describeWith_union {describe : List Nat → Ty → Infer Schema} {expanding : List Nat}
    {c : Context} {s s' : Store} {t : Ty} {members : List Ty}
    (hview : (view t).exec c s = (.ok (.union members), s')) :
    (Schema.describeWith view Ty.isNullish describe expanding t).exec c s = (do
      let schemas ← (members.filter fun m => !m.isNullish).mapM (describe expanding)
      return Unfolding.unionSchema (members.any Ty.isNullish) schemas : Infer Schema).exec c s' := by
  rw [Schema.describeWith, exec_bind_ok hview]
  dsimp only
  generalize members.filter (fun m => !m.isNullish) = rest
  rcases rest with - | ⟨m, - | ⟨m', rest⟩⟩
  · rfl
  · simp only [List.mapM_cons, List.mapM_nil, LawfulMonad.bind_assoc, LawfulMonad.pure_bind]
    rfl
  · simp only [List.mapM_cons, LawfulMonad.bind_assoc, LawfulMonad.pure_bind]
    rfl

namespace TypeGraph

variable {g : TypeGraph} {above : List Nat} {t : Ty}

variable (g above t) in
/-- The description of a type below the objects that are being described ends with a schema, for
sufficiently many levels of description and of queries. -/
def Synthesizes (s : Schema) : Prop :=
  ∀ᶠ p in atTop ×ˢ atTop, (Schema.synthesize view Ty.isNullish (throw .exhausted) p.1 above t).exec
    (g.context.atDepth p.2) g.store = (.ok s, g.store)

/-- What a type of a graph is, with the store of the graph as it was. -/
lemma HasView.sees {w : Schema.View Ty Nat} (h : g.HasView t w) :
    Sees g.context g.store t w g.store := by
  unfold Sees
  filter_upwards [h] with d h
  exact h d

lemma HasView.synthesizes_primitive {kind : PrimitiveKind} (h : g.HasView t (.primitive kind)) :
    g.Synthesizes above t (.primitive kind none false) :=
  h.sees.describes_primitive

lemma HasView.synthesizes_undefined (h : g.HasView t .undefined) :
    g.Synthesizes above t (.unparsed none true) :=
  h.sees.describes_undefined

lemma HasView.synthesizes_other {text : String} (h : g.HasView t (.other text)) :
    g.Synthesizes above t (.unparsed (some ("Unparsed type: " ++ text)) false) :=
  h.sees.describes_other

lemma HasView.synthesizes_array {element : Ty} {s : Schema} (h : g.HasView t (.array element))
    (hs : g.Synthesizes above element s) : g.Synthesizes above t (.array s false) :=
  h.sees.describes_array hs

lemma HasView.synthesizes_map {value : Ty} {s : Schema} (h : g.HasView t (.map value))
    (hs : g.Synthesizes above value s) : g.Synthesizes above t (.map s false) :=
  h.sees.describes_map hs

lemma HasView.synthesizes_union {members : List Ty} {s : Ty → Schema}
    (h : g.HasView t (.union members))
    (hs : ∀ m ∈ members, m.isNullish = false → g.Synthesizes above m (s m)) :
    g.Synthesizes above t (Unfolding.unionSchema (members.any Ty.isNullish)
      ((members.filter fun m => !m.isNullish).map s)) := by
  have hrest : ∀ m ∈ members.filter (fun m => !m.isNullish), g.Synthesizes above m (s m) := by
    intro m hm
    obtain ⟨hmem, hnull⟩ := List.mem_filter.1 hm
    exact hs m hmem (by simpa using hnull)
  refine eventually_succ ?_
  filter_upwards [h.sees.prod, eventually_mapM hrest] with p hview hmap
  rw [Schema.synthesize, exec_describeWith_union hview, exec_bind_ok hmap, exec_pure]

lemma HasView.synthesizes_marker {id : Nat} {members : List Property}
    (h : g.HasView t (.object (some id) members)) (hid : id ∈ above) :
    g.Synthesizes above t .recursive :=
  h.sees.describes_marker hid

lemma HasView.synthesizes_object {id : Nat} {members : List Property} {s : Property → Schema}
    (h : g.HasView t (.object (some id) members)) (hid : id ∉ above)
    (hs : ∀ m ∈ members, g.Synthesizes (id :: above) m.type (s m)) :
    g.Synthesizes above t
      (.ofProperties (members.map fun m => (m.name, m.optional, s m))) :=
  h.sees.describes_object hid hs

/-! ## All levels -/

variable (g above) in
/-- The objects of a graph that are not being expanded. -/
def unexpanded : Finset Nat := Finset.range g.objects.size \ above.toFinset

lemma card_unexpanded_cons {id : Nat} (hid : id < g.objects.size) (h : id ∉ above) :
    (g.unexpanded (id :: above)).card < (g.unexpanded above).card :=
  card_sdiff_cons_lt (Finset.mem_range.2 hid) h

lemma IsUnion.weight_le {ts : List Ty} {u : Ty} (h : g.IsUnion ts u) :
    u.weight ≤ 1 + Ty.weights ts := by
  obtain ⟨d, hd⟩ := Filter.Eventually.exists h
  exact weight_le_of_makeUnion (hd 0)

variable (g above t) in
/-- A type has a schema below the objects that are being described, and the schema is that of a
guarded unfolding of the type. -/
def Unfoldable : Prop := ∃ u, Unfolds g t u ∧ u.Guarded above ∧ g.Synthesizes above t u.schema

lemma unfoldable_of_kind {kind : PrimitiveKind} (h : t.kind? = some kind) :
    g.Unfoldable above t := by
  have hview := hasView_of_kind (g := g) h
  rcases hundefined : t.isUndefined with - | -
  · rw [hundefined, if_neg Bool.false_ne_true] at hview
    refine ⟨_, .kind h hundefined, Unfolding.guarded_leaf _, ?_⟩
    rw [Unfolding.schema]
    exact hview.synthesizes_primitive
  · rw [hundefined, if_pos rfl] at hview
    refine ⟨_, .undefined hundefined, Unfolding.guarded_leaf _, ?_⟩
    rw [Unfolding.schema]
    exact hview.synthesizes_undefined

lemma unfoldable_of_isOpaque (h : t.isOpaque = true) : g.Unfoldable above t := by
  obtain ⟨text, hview⟩ := hasView_of_isOpaque (g := g) h
  refine ⟨_, .isOpaque text h, Unfolding.guarded_leaf _, ?_⟩
  rw [Unfolding.schema]
  exact hview.synthesizes_other

lemma unfoldable_union {members : List Ty} (h : ∀ m ∈ members, g.Unfoldable above m) :
    g.Unfoldable above (.union members) := by
  choose! u hu using h
  refine ⟨_, .union u fun m hm _ => (hu m hm).1, Unfolding.guarded_union fun v hv => ?_, ?_⟩
  · obtain ⟨m, hm, rfl⟩ := List.mem_map.1 hv
    exact (hu m (List.mem_filter.1 hm).1).2.1
  · rw [Unfolding.schema, List.map_map]
    exact (hasView_union members).synthesizes_union fun m hm _ => (hu m hm).2.2

/-- An object that is being described is left as a marker, and any other is expanded.  A reference to
no object has nothing to expand. -/
lemma unfoldable_object {id : Nat} (h : id < g.objects.size → id ∉ above →
    ∀ p ∈ g.properties id, g.Unfoldable (id :: above) p.type) : g.Unfoldable above (.object id) := by
  by_cases habove : id ∈ above
  · refine ⟨_, .marker id, Unfolding.guarded_marker habove, ?_⟩
    rw [Unfolding.schema]
    exact (hasView_object id).synthesizes_marker habove
  · have hparts : ∀ p ∈ g.properties id, g.Unfoldable (id :: above) p.type := by
      by_cases hid : id < g.objects.size
      · exact h hid habove
      · rw [properties_of_size_le g (not_lt.1 hid)]
        simp
    choose! u hu using hparts
    refine ⟨_, .object u fun p hp => (hu p hp).1, Unfolding.guarded_object habove fun m hm => ?_, ?_⟩
    · obtain ⟨p, hp, rfl⟩ := List.mem_map.1 hm
      exact (hu p hp).2.1
    · rw [Unfolding.schema, List.map_map]
      exact (hasView_object id).synthesizes_object habove fun p hp => (hu p hp).2.2

variable (g) in
/-- Every type of a graph has a schema, below any objects that are being described. -/
theorem unfoldable (above : List Nat) (t : Ty) : g.Unfoldable above t := by
  match t with
  | .primitive p =>
    cases p <;> first | exact unfoldable_of_kind rfl | exact unfoldable_of_isOpaque rfl
  | .literal l => cases l <;> exact unfoldable_of_kind rfl
  | .enumMember _ _ none => exact unfoldable_of_kind rfl
  | .enumMember _ _ (some (.text _)) => exact unfoldable_of_kind rfl
  | .enumMember _ _ (some (.number _)) => exact unfoldable_of_kind rfl
  | .promise inner => exact unfoldable_of_isOpaque rfl
  | .named name args => exact unfoldable_of_isOpaque rfl
  | .function signature => exact unfoldable_of_isOpaque rfl
  | .union members => exact unfoldable_union fun m hm => unfoldable above m
  | .array element =>
    obtain ⟨u, hu, hguarded, hs⟩ := unfoldable above element
    refine ⟨_, .array hu, hguarded.array, ?_⟩
    rw [Unfolding.schema]
    exact (hasView_array element).synthesizes_array hs
  | .tuple [] =>
    have hany : g.Unfoldable above .any := unfoldable_of_isOpaque rfl
    obtain ⟨u, hu, hguarded, hs⟩ := hany
    refine ⟨_, .emptyTuple hu, hguarded.array, ?_⟩
    rw [Unfolding.schema]
    exact hasView_tuple_nil.synthesizes_array hs
  | .tuple (first :: rest) =>
    obtain ⟨element, helement⟩ := g.exists_isUnion (first :: rest)
    have hweight := helement.weight_le
    obtain ⟨u, hu, hguarded, hs⟩ := unfoldable above element
    refine ⟨_, .tuple (List.cons_ne_nil _ _) helement hu, hguarded.array, ?_⟩
    rw [Unfolding.schema]
    exact (hasView_tuple helement).synthesizes_array hs
  | .map value =>
    obtain ⟨u, hu, hguarded, hs⟩ := unfoldable above value
    refine ⟨_, .map hu, hguarded.map, ?_⟩
    rw [Unfolding.schema]
    exact (hasView_map value).synthesizes_map hs
  | .object id => exact unfoldable_object fun hid habove p hp => unfoldable (id :: above) p.type
termination_by ((g.unexpanded above).card, t.weight)
decreasing_by
  · have hle := Ty.weight_le_weights hm
    simp only [Ty.weight]
    exact Prod.Lex.right _ (by omega)
  · simp only [Ty.weight]
    exact Prod.Lex.right _ (by omega)
  · simp only [Ty.weight]
    exact Prod.Lex.right _ (by omega)
  · simp only [Ty.weight]
    exact Prod.Lex.right _ (by omega)
  · exact Prod.Lex.left _ _ (card_unexpanded_cons hid habove)

lemma Synthesizes.schemaOf {s : Schema} (h : g.Synthesizes [] t s) :
    ∀ᶠ d in atTop, (schemaOf t).runTo d g.file g.store = (.ok s, g.store) := by
  filter_upwards [Describes.schemaOf h] with d hd
  exact hd

end TypeGraph

end RouteScribe.Typing
