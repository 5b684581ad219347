import Mathlib.Tactic
import RouteScribe.Proofs.Source.LegiblePrograms
import RouteScribe.Proofs.Table
import RouteScribe.Zod

/-!
# The grammar of zod schemas

`Zod.parse` reads a chain of calls from the outside in: the call that is written last is met first,
and the builder that everything hangs on comes at the end.  The grammar that it accepts is
`Zod.Chain`: the call of a builder, behind it calls of names that are known, and parentheses and casts
anywhere around these.  The marks of the result depend only on which names occur in the chain.

The reader decides that it has reached the builder by the text of what a call is made on: `z`, or a
text that ends with `.z`.  The text of a call never is one, since a closing bracket or a backquote
ends it (`Source.Within.closed_text`), so in a program the reader does not stop too early.
-/

namespace RouteScribe

open Source

namespace Zod

/-! ## The grammar -/

/-- The builders that are known. -/
inductive Builder
  | string | number | boolean | array | object
  deriving DecidableEq, Repr

/-- The name that a builder is called by. -/
def Builder.name : Builder → String
  | .string => "string"
  | .number => "number"
  | .boolean => "boolean"
  | .array => "array"
  | .object => "object"

/-- The builder of a schema, if it is known. -/
def builder? : Zod → Option Builder
  | .string .. => some .string
  | .number .. => some .number
  | .boolean .. => some .boolean
  | .array .. => some .array
  | .object .. => some .object
  | .unknown .. => none

/-- The first argument of a call is an object literal, perhaps in parentheses or with a cast. -/
def LiteralFirst (call : Cursor) : Prop :=
  ∃ shape ∈ call.callArguments.head?, shape.unwrap.kind = .object

/-- A call of a builder: its name is a member of a receiver, and the builder for objects is given an
object literal. -/
structure BuilderCall (b : Builder) (call : Cursor) : Prop where
  kind : call.kind = .callExpression
  receiver : ∃ receiver, call.calledMember? = some (b.name, receiver) ∧ isReceiver receiver = true
  literal : b = .object → LiteralFirst call

/-- Names of calls that may stand behind a builder. -/
def LinkName (name : String) : Prop :=
  name = "optional" ∨ name = "nullable" ∨ name = "nullish" ∨ name ∈ refinements

/-- Chains of calls on a builder: the expression as a whole, the builder with its call, and the names of
the calls behind it, the last one first. -/
inductive Chain : Cursor → Builder → Cursor → List String → Prop
  | builder {b : Builder} {call : Cursor} : BuilderCall b call → Chain call b call []
  | link {c receiver call : Cursor} {b : Builder} {name : String} {names : List String} :
      c.kind = .callExpression → c.calledMember? = some (name, receiver) → LinkName name →
      Chain receiver b call names → Chain c b call (name :: names)
  | wrapped {c inner call : Cursor} {b : Builder} {names : List String} :
      c.wrapped? = some inner → Chain inner b call names → Chain c b call names

/-- Reads what stands inside a builder; nothing is unknown. -/
def inside (o : Option Cursor) : Zod := o.elim (.unknown false false) parse

/-- What the items of a list are. -/
def items? : Zod → Option Zod
  | .array items _ _ => items
  | _ => none

/-- The fields of an object. -/
def fields : Zod → List (String × Zod)
  | .object fields _ _ => fields
  | _ => []

/-- The name of a pair in an object literal, unless it is computed. -/
def pairName? (pair : Cursor) : Option String := (pair.child? .key).bind Cursor.memberKey?

/-- The pairs of an object literal. -/
def pairs (shape : Cursor) : List Cursor := shape.named.filter (·.kind == .pair)

/-- The fields that an object literal describes: each name in its first position, and under it the
value of the last pair of that name. -/
structure FieldsOf (shape : Cursor) (fields : List (String × Zod)) : Prop where
  names : Table.names fields = ((pairs shape).filterMap pairName?).eraseDups
  values : ∀ name z, (name, z) ∈ fields → ∃ front pair back, pairs shape = front ++ pair :: back ∧
    pairName? pair = some name ∧ (∀ p ∈ back, pairName? p ≠ some name) ∧
    z = inside (pair.child? .value)

/-! ## Bounds -/

section

variable {read read' : Option Cursor → Zod} {c call shape : Cursor} {n : Nat}

/-- Two ways to read agree on what is smaller than a number, and where there is nothing to read. -/
structure AgreeBelow (n : Nat) (read read' : Option Cursor → Zod) : Prop where
  none : read none = read' none
  some : ∀ c : Cursor, c.size < n → read (some c) = read' (some c)

lemma AgreeBelow.mono {m : Nat} (h : AgreeBelow n read read') (hmn : m ≤ n) :
    AgreeBelow m read read' where
  none := h.none
  some c hc := h.some c (hc.trans_le hmn)

lemma fieldsOf_congr (h : AgreeBelow shape.size read read') :
    fieldsOf read shape = fieldsOf read' shape := by
  unfold fieldsOf
  refine congrArg Table.ofList (List.filterMap_congr fun p hp => ?_)
  have hvalue : read (p.child? .value) = read' (p.child? .value) := by
    rcases hv : p.child? .value with - | v
    · exact h.none
    · exact h.some v ((Cursor.size_lt_of_child? hv).trans
        (Cursor.size_lt_of_mem_named (List.mem_of_mem_filter hp)))
  rw [hvalue]

lemma objectOf_congr (h : AgreeBelow call.size read read') :
    objectOf read call = objectOf read' call := by
  unfold objectOf
  rcases harg : call.callArguments.head? with - | arg
  · rfl
  · have hlt := Cursor.size_lt_of_mem_callArguments (List.mem_of_head? harg)
    rw [Option.map_some]
    simp only [fieldsOf_congr (h.mono (arg.size_unwrap_le.trans hlt.le))]

lemma build?_congr (h : AgreeBelow call.size read read') (name : String) :
    build? read name call = build? read' name call := by
  have hitems : (call.callArguments.head?.map fun item => read (some item)) =
      call.callArguments.head?.map fun item => read' (some item) := by
    refine Option.map_congr fun item hitem => h.some item ?_
    exact Cursor.size_lt_of_mem_callArguments (List.mem_of_head? hitem)
  unfold build?
  rw [hitems, objectOf_congr h]

/-- A chain is read alike with all bounds that are larger than the expression. -/
lemma chainFrom_congr {bound bound' : Nat} (h : AgreeBelow n read read') (hn : c.size ≤ n)
    (hbound : c.size < bound) (hbound' : c.size < bound') (o m : Bool) :
    chainFrom read bound o m c = chainFrom read' bound' o m c := by
  induction bound generalizing bound' c o m with
  | zero => exact absurd hbound (Nat.not_lt_zero _)
  | succ bound ih =>
    obtain ⟨bound', rfl⟩ : ∃ k, bound' = k + 1 := ⟨bound' - 1, by omega⟩
    rw [chainFrom, chainFrom]
    split
    · rfl
    · split
      · rfl
      · rename_i name receiver hcalled
        have hlt := Cursor.size_lt_of_calledMember? hcalled
        have hle := receiver.size_unwrap_le
        rw [build?_congr (h.mono hn)]
        split
        · rfl
        · split
          · exact ih (by omega) (by omega) (by omega) _ _
          · rfl

/-- An expression is read alike with all bounds that are larger than it. -/
lemma parseFrom_eq_parse {depth : Nat} (h : c.size < depth) : parseFrom depth (some c) = parse c := by
  unfold parse
  change parseFrom depth (some c) = parseFrom (c.size + 1) (some c)
  generalize hn : c.size + 1 = depth'
  have h' : c.size < depth' := by omega
  clear hn
  induction depth generalizing c depth' with
  | zero => exact absurd h (Nat.not_lt_zero _)
  | succ depth ih =>
    obtain ⟨depth', rfl⟩ : ∃ k, depth' = k + 1 := ⟨depth' - 1, by omega⟩
    rw [parseFrom, parseFrom]
    have hagree : AgreeBelow c.size (parseFrom depth) (parseFrom depth') := by
      constructor
      · cases depth <;> cases depth' <;> rfl
      · intro d hd
        exact ih (by omega) depth' (by omega)
    exact chainFrom_congr hagree c.size_unwrap_le (Nat.lt_succ_of_le c.size_unwrap_le)
      (Nat.lt_succ_of_le c.size_unwrap_le) _ _

lemma agreeBelow_inside (depth : Nat) : AgreeBelow depth (parseFrom depth) inside where
  none := by cases depth <;> rfl
  some _ hc := parseFrom_eq_parse hc

/-- An expression is read as a chain whose builders read what is inside them in the same way. -/
lemma parse_eq_chainFrom (c : Cursor) {bound : Nat} (hbound : c.unwrap.size < bound) :
    parse c = chainFrom inside bound false false c.unwrap :=
  chainFrom_congr (agreeBelow_inside c.size) c.size_unwrap_le (Nat.lt_succ_of_le c.size_unwrap_le)
    hbound _ _

end

/-! ## Marks -/

section

variable {z : Zod} {o n : Bool}

@[simp] lemma builder?_marked : (z.marked o n).builder? = z.builder? := by cases z <;> rfl

@[simp] lemma optional_marked : (z.marked o n).optional = o := by cases z <;> rfl

@[simp] lemma nullable_marked : (z.marked o n).nullable = n := by cases z <;> rfl

@[simp] lemma items?_marked : (z.marked o n).items? = z.items? := by cases z <;> rfl

@[simp] lemma fields_marked : (z.marked o n).fields = z.fields := by cases z <;> rfl

end

/-- Whether some call of a chain leaves a mark: the call that is named for it, or the one that leaves
both. -/
def leaves (mark : String) (names : List String) : Bool :=
  names.any fun name => name == mark || name == "nullish"

lemma leaves_eq_true {mark : String} {names : List String} :
    leaves mark names = true ↔ mark ∈ names ∨ "nullish" ∈ names := by
  simp only [leaves, List.any_eq_true, Bool.or_eq_true, beq_iff_eq]
  constructor
  · rintro ⟨name, hname, rfl | rfl⟩
    · exact .inl hname
    · exact .inr hname
  · rintro (h | h)
    · exact ⟨_, h, .inl rfl⟩
    · exact ⟨_, h, .inr rfl⟩

/-- The names that may stand behind a builder are those that the reader knows, and each says what it
says alone. -/
lemma mark?_of_linkName {name : String} (h : LinkName name) :
    mark? name = some (leaves "optional" [name], leaves "nullable" [name]) := by
  by_cases hoptional : name = "optional"
  · subst hoptional
    rfl
  by_cases hnullable : name = "nullable"
  · subst hnullable
    rfl
  by_cases hnullish : name = "nullish"
  · subst hnullish
    rfl
  have hrefinement : name ∈ refinements :=
    ((h.resolve_left hoptional).resolve_left hnullable).resolve_left hnullish
  simp [mark?, leaves, hoptional, hnullable, hnullish, hrefinement]

lemma linkName_of_mark? {name : String} {marks : Bool × Bool} (h : mark? name = some marks) :
    LinkName name := by
  unfold mark? at h
  unfold LinkName
  by_contra hname
  push Not at hname
  obtain ⟨hoptional, hnullable, hnullish, hrefinement⟩ := hname
  simp [hoptional, hnullable, hnullish, hrefinement] at h

/-! ## Builders -/

section

variable {read : Option Cursor → Zod} {c call arg : Cursor} {b : Builder} {name : String} {z : Zod}

lemma objectOf_of_literal (harg : call.callArguments.head? = some arg)
    (hkind : arg.unwrap.kind = .object) :
    objectOf read call = .object (fieldsOf read arg.unwrap) false false := by
  simp [objectOf, harg, hkind]

lemma objectOf_of_not_literal (h : ¬LiteralFirst call) :
    objectOf read call = .unknown false false := by
  unfold objectOf
  rcases harg : call.callArguments.head? with - | arg
  · rfl
  · have hkind : arg.unwrap.kind ≠ .object := fun hkind => h ⟨arg, harg, hkind⟩
    simp [hkind]

/-- What the call of a builder describes. -/
def describe (b : Builder) (call : Cursor) : Zod :=
  match b with
  | .string => .string false false
  | .number => .number false false
  | .boolean => .boolean false false
  | .array => .array (call.callArguments.head?.map parse) false false
  | .object => objectOf inside call

lemma build?_name (b : Builder) (call : Cursor) :
    build? inside b.name call = some (describe b call) := by
  cases b <;> rfl

lemma builder?_describe (h : BuilderCall b call) : (describe b call).builder? = some b := by
  cases b
  case object =>
    obtain ⟨arg, harg, hkind⟩ := h.literal rfl
    rw [describe, objectOf_of_literal harg hkind]
    rfl
  all_goals rfl

/-- A builder that gives a known schema is called by its name, and as it has to be called. -/
lemma exists_of_build? (h : build? inside name call = some z) (hb : z.builder? = some b) :
    name = b.name ∧ (b = .object → LiteralFirst call) := by
  unfold build? at h
  split at h
  case h_5 =>
    cases h
    by_cases hliteral : LiteralFirst call
    · obtain ⟨arg, harg, hkind⟩ := hliteral
      rw [objectOf_of_literal harg hkind] at hb
      cases hb
      exact ⟨rfl, fun _ => ⟨arg, harg, hkind⟩⟩
    · rw [objectOf_of_not_literal hliteral] at hb
      cases hb
  case h_6 => cases h
  all_goals
    cases h
    cases hb
    exact ⟨rfl, fun h => nomatch h⟩

end

/-! ## Chains -/

section

variable {root : Node} {c d call : Cursor} {b : Builder} {names : List String}

/-- What is made of calls is a call, without its wrappers. -/
lemma Chain.kind_unwrap (h : Chain c b call names) : c.unwrap.kind = .callExpression := by
  induction h with
  | builder hcall =>
    rw [Cursor.unwrap_of_kind (by rw [hcall.kind]; rfl)]
    exact hcall.kind
  | link hkind _ _ _ _ =>
    rw [Cursor.unwrap_of_kind (by rw [hkind]; rfl)]
    exact hkind
  | wrapped hinner _ ih =>
    rw [Cursor.unwrap_of_wrapped? hinner]
    exact ih

/-- A text that ends with `z` is not closed. -/
lemma isReceiver_of_closed (h : Closed c.unwrap.text) : isReceiver c = false := by
  by_contra hreceiver
  rw [Bool.not_eq_false] at hreceiver
  have hlast : c.unwrap.text.toList.getLast? = some 'z' := by
    rcases Bool.or_eq_true_iff.1 hreceiver with hname | hends
    · rw [eq_of_beq hname]
      rfl
    · rw [← String.endsWith_toSlice] at hends
      have hsuffix : ".z".toList <:+ c.unwrap.text.toList := by
        simpa using String.Slice.endsWith_string_iff.1 hends
      obtain ⟨front, hfront⟩ := hsuffix
      rw [← hfront]
      exact List.getLast?_append_of_ne_nil _ (by simp)
  rcases h 'z' hlast with hz | hz
  · exact absurd hz (by decide)
  · exact absurd hz (by decide)

/-- In a program no chain is taken for the object that builders are called on. -/
lemma Chain.isReceiver_eq_false (h : Chain c b call names) (hc : Within root c)
    (hroot : root.Legible) : isReceiver c = false :=
  isReceiver_of_closed (hc.unwrap.closed_text hroot h.kind_unwrap)

/-- **The reader goes down every chain**, to what its builder describes, and puts the marks of the
chain to those that it has met before. -/
lemma chainFrom_of_chain (h : Chain c b call names) (hc : Within root c) (hroot : root.Legible)
    {bound : Nat} (hbound : c.unwrap.size < bound) (o n : Bool) :
    chainFrom inside bound o n c.unwrap =
      (describe b call).marked (o || leaves "optional" names) (n || leaves "nullable" names) := by
  induction h generalizing bound o n with
  | builder hcall =>
    obtain ⟨receiver, hcalled, hreceiver⟩ := hcall.receiver
    obtain ⟨bound, rfl⟩ : ∃ k, bound = k + 1 := ⟨bound - 1, by omega⟩
    rw [Cursor.unwrap_of_kind (by rw [hcall.kind]; rfl), chainFrom]
    simp [hcall.kind, hcalled, hreceiver, build?_name, leaves]
  | link hkind hcalled hname hchain ih =>
    rename_i c receiver call b name names
    obtain ⟨bound, rfl⟩ : ∃ k, bound = k + 1 := ⟨bound - 1, by omega⟩
    rw [Cursor.unwrap_of_kind (by rw [hkind]; rfl)] at hbound ⊢
    have hwithin : Within root receiver := hc.calledMember hcalled
    have hsize : receiver.unwrap.size < bound := by
      have hlt := Cursor.size_lt_of_calledMember? hcalled
      have hle := receiver.size_unwrap_le
      omega
    have hrest := ih hwithin hsize (o || leaves "optional" [name]) (n || leaves "nullable" [name])
    rw [chainFrom]
    simp only [hkind, hcalled, hchain.isReceiver_eq_false hwithin hroot, mark?_of_linkName hname]
    simpa [leaves, Bool.or_assoc] using hrest
  | wrapped hinner _ ih =>
    rw [Cursor.unwrap_of_wrapped? hinner] at hbound ⊢
    exact ih (hc.named (Cursor.mem_named_of_wrapped? hinner)) hbound o n

lemma exists_chain_of_unwrap (h : ∃ call names, Chain c.unwrap b call names) :
    ∃ call names, Chain c b call names := by
  refine Cursor.of_unwrap (P := fun c => ∃ call names, Chain c b call names) ?_ h
  rintro c d hinner ⟨call, names, hchain⟩
  exact ⟨call, names, .wrapped hinner hchain⟩

/-- **The reader accepts only chains.** -/
lemma exists_chain {bound : Nat} {o n : Bool}
    (h : (chainFrom inside bound o n c).builder? = some b) : ∃ call names, Chain c b call names := by
  induction bound generalizing c o n with
  | zero => cases h
  | succ bound ih =>
    rw [chainFrom] at h
    split at h
    case isTrue => cases h
    case isFalse hkind =>
      replace hkind : c.kind = .callExpression := by simpa using hkind
      split at h
      case h_1 => cases h
      case h_2 name receiver hcalled =>
        split at h
        case isTrue hreceiver =>
          rcases hbuilt : build? inside name c with - | z
          · rw [hbuilt] at h
            cases h
          · rw [hbuilt, Option.map_some, Option.getD_some, builder?_marked] at h
            obtain ⟨rfl, hliteral⟩ := exists_of_build? hbuilt h
            exact ⟨c, [], .builder ⟨hkind, ⟨receiver, hcalled, hreceiver⟩, hliteral⟩⟩
        case isFalse =>
          split at h
          case h_1 o' n' hmark =>
            obtain ⟨call, names, hchain⟩ := exists_chain_of_unwrap (ih h)
            exact ⟨call, name :: names, .link hkind hcalled (linkName_of_mark? hmark) hchain⟩
          case h_2 => cases h

/-- What an expression means that is a chain. -/
lemma parse_of_chain (h : Chain c b call names) (hc : Within root c) (hroot : root.Legible) :
    parse c = (describe b call).marked (leaves "optional" names) (leaves "nullable" names) := by
  rw [parse_eq_chainFrom c (Nat.lt_succ_self _),
    chainFrom_of_chain h hc hroot (Nat.lt_succ_self _), Bool.false_or, Bool.false_or]

lemma Chain.builderCall (h : Chain c b call names) : BuilderCall b call := by
  induction h with
  | builder hcall => exact hcall
  | link _ _ _ _ ih => exact ih
  | wrapped _ _ ih => exact ih

end

/-! ## Fields -/

/-- The fields that are read from an object literal. -/
lemma fieldsOf_inside (shape : Cursor) : FieldsOf shape (fieldsOf inside shape) := by
  let entry (p : Cursor) : Option (String × Zod) :=
    (pairName? p).map fun name => (name, inside (p.child? .value))
  have hfields : fieldsOf inside shape = Table.ofList ((pairs shape).filterMap entry) := rfl
  rw [hfields]
  constructor
  · rw [Table.names_ofList, Table.names, List.map_filterMap]
    congr 1
    refine List.filterMap_congr fun p _ => ?_
    cases hname : pairName? p <;> simp [entry, hname]
  · intro name z hz
    obtain ⟨-, later, earlier, hsplit, hlater⟩ :=
      List.find?_eq_some_iff_append.1 (Table.mem_ofList.1 hz)
    have hentries : (pairs shape).filterMap entry = earlier.reverse ++ (name, z) :: later.reverse := by
      rw [← List.reverse_reverse (List.filterMap entry (pairs shape)), hsplit]
      simp
    obtain ⟨front, rest, hpairs, -, hrest⟩ := List.filterMap_eq_append_iff.1 hentries
    obtain ⟨skipped, pair, back, rfl, -, hpair, hback⟩ := List.filterMap_eq_cons_iff.1 hrest
    obtain ⟨name', hname, heq⟩ := Option.map_eq_some_iff.1 hpair
    obtain ⟨rfl, rfl⟩ := Prod.mk.inj heq
    refine ⟨front ++ skipped, pair, back, by rw [hpairs, List.append_assoc], hname, ?_, rfl⟩
    intro p hp hsame
    have hmem : (name', inside (p.child? .value)) ∈ later := by
      rw [← List.mem_reverse, ← hback]
      exact List.mem_filterMap.2 ⟨p, hp, by simp [entry, hsame]⟩
    have hother := hlater _ hmem
    simp at hother

/-! ## The reader and the grammar -/

/-- The direct call of the builder for objects is read by the same rule as a whole expression. -/
lemma objectCallSchema?_eq {c : Cursor} (h : isObjectCall c = true) :
    (LiteralFirst c.unwrap → objectCallSchema? c = some (parse c).schema) ∧
      (¬LiteralFirst c.unwrap → objectCallSchema? c = none) := by
  simp only [isObjectCall, Bool.and_eq_true, beq_iff_eq, Option.any_eq_true] at h
  obtain ⟨hkind, ⟨name, receiver⟩, hcalled, rfl, hreceiver⟩ := h
  have hread : objectOf (parseFrom (c.node.size + 1)) c.unwrap = objectOf inside c.unwrap :=
    objectOf_congr ((agreeBelow_inside _).mono (c.size_unwrap_le.trans (Nat.le_succ _)))
  have hparse : parse c = (objectOf inside c.unwrap).marked false false := by
    rw [parse_eq_chainFrom c (Nat.lt_succ_self _), chainFrom]
    simp [hkind, hcalled, hreceiver, build?]
  rw [objectCallSchema?, hread, hparse]
  constructor
  · rintro ⟨arg, harg, hliteral⟩
    rw [objectOf_of_literal harg hliteral]
    rfl
  · intro hliteral
    rw [objectOf_of_not_literal hliteral]

/-- **The reader accepts exactly its grammar**, for every expression of a legible tree.  The builder of the
result is known if and only if the expression is a chain, and it is the builder of the chain.  The marks
say which names occur in the chain, whatever their order and number.  Items of lists and fields of
objects are read by the same rule.  The schema of an object requires the fields that may not be left
out, in their order.  The second way to read a call of the builder for objects agrees with the first if
the call is given an object literal, and gives nothing if it is not. -/
theorem parse_exact {root : Node} (hroot : root.Legible) {c : Cursor} (hc : Within root c) :
    (∀ b, (parse c).builder? = some b ↔ ∃ call names, Chain c b call names) ∧
    (∀ b call names, Chain c b call names →
      ((parse c).optional = true ↔ "optional" ∈ names ∨ "nullish" ∈ names) ∧
      ((parse c).nullable = true ↔ "nullable" ∈ names ∨ "nullish" ∈ names) ∧
      (b = .array → (parse c).items? = call.callArguments.head?.map parse) ∧
      (b = .object → ∃ shape ∈ call.callArguments.head?, shape.unwrap.kind = .object ∧
        FieldsOf shape.unwrap (parse c).fields)) ∧
    (∀ fields o n, (Zod.object fields o n).schema = .object (fields.map fun f => (f.1, f.2.schema))
      ((fields.filter fun f => !f.2.optional).map (·.1)) n) ∧
    (isObjectCall c = true →
      (LiteralFirst c.unwrap → objectCallSchema? c = some (parse c).schema) ∧
      (¬LiteralFirst c.unwrap → objectCallSchema? c = none)) := by
  refine ⟨fun b => ⟨fun hb => ?_, ?_⟩, ?_, fun fields o n => ?_, objectCallSchema?_eq⟩
  · rw [parse_eq_chainFrom c (Nat.lt_succ_self _)] at hb
    exact exists_chain_of_unwrap (exists_chain hb)
  · rintro ⟨call, names, hchain⟩
    rw [parse_of_chain hchain hc hroot, builder?_marked]
    exact builder?_describe hchain.builderCall
  · intro b call names hchain
    rw [parse_of_chain hchain hc hroot, optional_marked, nullable_marked, items?_marked,
      fields_marked]
    refine ⟨leaves_eq_true, leaves_eq_true, ?_, ?_⟩
    · rintro rfl
      rfl
    · rintro rfl
      obtain ⟨shape, hshape, hkind⟩ := hchain.builderCall.literal rfl
      refine ⟨shape, hshape, hkind, ?_⟩
      rw [describe, objectOf_of_literal hshape hkind]
      exact fieldsOf_inside shape.unwrap
  · rw [schema, fieldSchemas_eq_map, requiredFields_eq_map]

/-- A chain with a cast in it, on an object literal that has a name twice. -/
def schemaText : String := "(z.object(\x7ba:1,a:z.string()\x7d) as any).nullish()\n"

theorem chain_schemaText : ∃ root call names, Source.parse .plain schemaText = some root ∧
    root.Legible ∧ Chain (root.nth 2) .object call names ∧ ("optional" ∈ names ∨ "nullish" ∈ names) ∧
      ∃ shape ∈ call.callArguments.head?, FieldsOf shape.unwrap (parse (root.nth 2)).fields ∧
        (parse (root.nth 2)).fields.map (fun f => (f.1, f.2.builder?)) = [("a", some .string)] := by
  have hspec : (Source.parse .plain schemaText).any (fun root =>
      let z := parse (root.nth 2)
      z.builder? == some .object && z.optional &&
        z.fields.map (fun f => (f.1, f.2.builder?)) == [("a", some .string)]) = true := by
    decide +kernel
  obtain ⟨root, hroot, hspec⟩ := (Option.any_eq_true _ _).1 hspec
  simp only [Bool.and_eq_true, beq_iff_eq] at hspec
  obtain ⟨⟨hbuilder, hoptional⟩, hlast⟩ := hspec
  have hlegible : root.Legible := legible_of_parse hroot
  obtain ⟨haccepted, hmeaning, -⟩ := parse_exact hlegible (within_nth root 2)
  obtain ⟨call, names, hchain⟩ := (haccepted .object).1 hbuilder
  obtain ⟨hleftOut, -, -, hfields⟩ := hmeaning .object call names hchain
  obtain ⟨shape, hshape, -, hread⟩ := hfields rfl
  exact ⟨root, call, names, hroot, hlegible, hchain, hleftOut.1 hoptional, shape, hshape, hread, hlast⟩

end Zod

end RouteScribe
