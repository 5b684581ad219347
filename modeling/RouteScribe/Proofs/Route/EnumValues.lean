import RouteScribe.Proofs.Route.Termination
import RouteScribe.Proofs.Typing.Sound

/-!
# The values of the members of an enumeration

A member of an enumeration has the value of its initializer if that is a constant; without an
initializer it has the integer after the member before it, and the first member has zero.  `HasValue`
says so, with the list of the members before.

The table of an enumeration holds these values, but for what computed names do
(`enumMembers_of_parse`).  A member whose name cannot be read is left out of the table, and it is left
out of the count as well: a member without an initializer follows the nearest member before it whose
name can be read.
-/

namespace RouteScribe.Typing

open Source

/-! ## Constants -/

/-- Constants and the expressions that denote them: a number, perhaps with a minus sign, or a string as
it is written, in parentheses and with casts around them. -/
inductive Denotes : Cursor → Constant → Prop
  | number {c : Cursor} {n : Numeral} :
    c.kind = .number → Numeral.read c.text = .ok (some n) → Denotes c (.number n)
  | text {c : Cursor} {s : String} : c.stringValue? = some s → Denotes c (.text s)
  | negated {c operator argument : Cursor} {n : Numeral} : c.kind = .unaryExpression →
    c.child? .operator = some operator → operator.text = "-" →
    c.child? .argument = some argument → argument.kind = .number →
    Numeral.read argument.text = .ok (some n) → Denotes c (.number n.neg)
  | wrapped {c inner : Cursor} {k : Constant} :
    c.wrapped? = some inner → Denotes inner k → Denotes c k

section

variable {c : Cursor} {k : Constant}

lemma negatedNumber?_eq_some {n : Numeral} : negatedNumber? c = .ok (some n) ↔
    ∃ operator argument m, c.child? .operator = some operator ∧ operator.text = "-" ∧
      c.child? .argument = some argument ∧ argument.kind = .number ∧
      Numeral.read argument.text = .ok (some m) ∧ n = m.neg := by
  constructor
  · intro h
    unfold negatedNumber? at h
    split at h
    case h_2 => cases h
    case h_1 operator argument hoperator hargument =>
      split at h
      case isFalse => cases h
      case isTrue hminus =>
        rw [Bool.and_eq_true, beq_iff_eq, beq_iff_eq] at hminus
        rcases hread : Numeral.read argument.text with e | - | m
        · rw [hread] at h
          cases h
        · rw [hread] at h
          cases h
        · rw [hread] at h
          cases h
          exact ⟨operator, argument, m, hoperator, hminus.1, hargument, hminus.2, hread, rfl⟩
  · rintro ⟨operator, argument, m, hoperator, htext, hargument, hkind, hread, rfl⟩
    simp only [negatedNumber?, hoperator, hargument, htext, hkind, hread, beq_self_eq_true,
      Bool.and_true, if_true]
    rfl

lemma denotes_of_constantValue? (h : constantValue? c = .ok (some k)) : Denotes c k := by
  refine Cursor.of_unwrap (P := fun c => Denotes c k) (fun c d hd hk => .wrapped hd hk) ?_
  unfold constantValue? at h
  dsimp only at h
  split at h
  case isTrue hkind =>
    rcases hread : Numeral.read c.unwrap.text with e | - | n
    · rw [hread] at h
      cases h
    · rw [hread] at h
      cases h
    · rw [hread] at h
      cases h
      exact .number (eq_of_beq hkind) hread
  case isFalse =>
    split at h
    case h_1 s hs =>
      cases h
      exact .text hs
    case h_2 =>
      split at h
      case isFalse => cases h
      case isTrue hkind =>
        rcases hnegated : negatedNumber? c.unwrap with e | - | n
        · rw [hnegated] at h
          cases h
        · rw [hnegated] at h
          cases h
        · rw [hnegated] at h
          cases h
          obtain ⟨operator, argument, m, hoperator, htext, hargument, hnumber, hread, rfl⟩ :=
            negatedNumber?_eq_some.1 hnegated
          exact .negated (eq_of_beq hkind) hoperator htext hargument hnumber hread

lemma constantValue?_of_denotes (h : Denotes c k) : constantValue? c = .ok (some k) := by
  induction h with
  | number hkind hread =>
    have hself := Cursor.unwrap_of_kind (by rw [hkind]; rfl)
    simp only [constantValue?, hself, hkind, hread, beq_self_eq_true, if_true]
    rfl
  | @text c s hs =>
    have hkinds : c.kind = .string ∨ c.kind = .templateString := by
      unfold Cursor.stringValue? at hs
      split at hs
      case h_1 hkind => exact .inl hkind
      case h_2 hkind => exact .inr hkind
      case h_3 => cases hs
    have hself : c.unwrap = c :=
      Cursor.unwrap_of_kind (by rcases hkinds with hkind | hkind <;> rw [hkind] <;> rfl)
    have hnumber : (c.kind == .number) = false := by
      rcases hkinds with hkind | hkind <;> rw [hkind] <;> rfl
    simp only [constantValue?, hself, hnumber, hs]
    rfl
  | @negated c operator argument n hkind hoperator htext hargument hnumber hread =>
    have hself : c.unwrap = c := Cursor.unwrap_of_kind (by rw [hkind]; rfl)
    have hstring : c.stringValue? = none := by
      rw [Cursor.stringValue?, hkind]
    have hnegated := negatedNumber?_eq_some.2
      ⟨operator, argument, n, hoperator, htext, hargument, hnumber, hread, rfl⟩
    simp only [constantValue?, hself, hkind, hstring, hnegated]
    rfl
  | @wrapped c inner k hinner hk ih =>
    rw [constantValue?, Cursor.unwrap_of_wrapped? hinner]
    exact ih

/-- Constants are what is read as one. -/
lemma denotes_iff : Denotes c k ↔ constantValue? c = .ok (some k) :=
  ⟨constantValue?_of_denotes, denotes_of_constantValue?⟩

end

/-! ## Values of members -/

/-- The members of an enumeration. -/
def members (declaration : Cursor) : List Cursor :=
  ((declaration.child? .body).map Cursor.named).getD []

/-- The name of a member, unless it is computed. -/
def memberName? (m : Cursor) : Option String :=
  if m.kind == .enumAssignment then (m.child? .name).bind Cursor.memberKey? else m.memberKey?

/-- Whether the name of a member can be read. -/
def hasName (m : Cursor) : Bool := (memberName? m).isSome

/-- `HasValue before m v`: behind the members `before`, from the first to the last, the member `m` has
the value `v`, or none. -/
inductive HasValue : List Cursor → Cursor → Option Constant → Prop
  | constant {before : List Cursor} {m e : Cursor} {k : Constant} : m.kind = .enumAssignment →
    m.child? .value = some e → Denotes e k → HasValue before m (some k)
  | computed {before : List Cursor} {m : Cursor} : m.kind = .enumAssignment →
    (∀ e, m.child? .value = some e → ∀ k, ¬Denotes e k) → HasValue before m none
  | first {m : Cursor} : m.kind ≠ .enumAssignment → HasValue [] m (some (.number (.exact 0)))
  | next {before : List Cursor} {p m : Cursor} {n : Int} : m.kind ≠ .enumAssignment →
    HasValue before p (some (.number (.exact n))) →
    HasValue (before ++ [p]) m (some (.number (.exact (n + 1))))
  | unknown {before : List Cursor} {p m : Cursor} {v : Option Constant} : m.kind ≠ .enumAssignment →
    HasValue before p v → (∀ n, v ≠ some (.number (.exact n))) → HasValue (before ++ [p]) m none

section

variable {before ms : List Cursor} {m : Cursor} {v v' : Option Constant} {next : Option Int}
  {table table' : List (String × Option Constant)} {name : String}

/-- Only an integer has a successor. -/
lemma successor?_eq_none (h : ∀ n, v ≠ some (.number (.exact n))) : successor? v = none := by
  unfold successor?
  split
  case h_1 n => exact absurd rfl (h n)
  case h_2 => rfl

/-- The value of a member with an initializer does not depend on the members before. -/
lemma HasValue.of_assignment (h : HasValue before m v) (hkind : m.kind = .enumAssignment) :
    ∀ k, v = some k ↔ ∃ e, m.child? .value = some e ∧ Denotes e k := by
  intro k
  cases h with
  | @constant _ _ e k' _ he hk' =>
    refine ⟨fun heq => ⟨e, he, Option.some.inj heq ▸ hk'⟩, ?_⟩
    rintro ⟨e', he', hk⟩
    obtain rfl : e = e' := Option.some.inj (he.symm.trans he')
    have hread := (denotes_iff.1 hk').symm.trans (denotes_iff.1 hk)
    injection hread
  | computed _ hnone =>
    refine ⟨fun heq => (by cases heq), ?_⟩
    rintro ⟨e, he, hk⟩
    exact absurd hk (hnone e he k)
  | first hplain => exact absurd hkind hplain
  | next hplain _ => exact absurd hkind hplain
  | unknown hplain _ _ => exact absurd hkind hplain

/-- The value of a member without an initializer follows that of the member before. -/
lemma HasValue.of_plain (h : HasValue before m v) (hkind : m.kind ≠ .enumAssignment) :
    (before = [] ∧ v = some (.number (.exact 0))) ∨ ∃ before' p u, before = before' ++ [p] ∧
      HasValue before' p u ∧ v = (successor? u).map fun n => .number (.exact n) := by
  cases h with
  | constant hassignment _ _ => exact absurd hassignment hkind
  | computed hassignment _ => exact absurd hassignment hkind
  | first _ => exact .inl ⟨rfl, rfl⟩
  | next _ hp => exact .inr ⟨_, _, _, rfl, hp, rfl⟩
  | @unknown before p u v _ hp hnone =>
    exact .inr ⟨_, _, _, rfl, hp, by rw [successor?_eq_none hnone]; rfl⟩

/-- A member has one value at most. -/
lemma HasValue.unique (h : HasValue before m v) (h' : HasValue before m v') : v = v' := by
  induction h generalizing v' with
  | constant hkind he hk => exact ((h'.of_assignment hkind _).2 ⟨_, he, hk⟩).symm
  | computed hkind hnone =>
    rcases v' with - | k
    · rfl
    · obtain ⟨e, he, hk⟩ := (h'.of_assignment hkind k).1 rfl
      exact absurd hk (hnone e he k)
  | first hkind =>
    rcases h'.of_plain hkind with ⟨-, rfl⟩ | ⟨before', p, u, hsplit, -, -⟩
    · rfl
    · simp at hsplit
  | next hkind _ ih =>
    rcases h'.of_plain hkind with ⟨hnil, -⟩ | ⟨before', p, u, hsplit, hu, rfl⟩
    · simp at hnil
    · obtain ⟨rfl, hp⟩ := List.append_inj' hsplit rfl
      cases hp
      rw [← ih hu]
      rfl
  | @unknown before p m v hkind _ hnone ih =>
    rcases h'.of_plain hkind with ⟨hnil, -⟩ | ⟨before', p, u, hsplit, hu, rfl⟩
    · simp at hnil
    · obtain ⟨rfl, hp⟩ := List.append_inj' hsplit rfl
      cases hp
      rw [← ih hu, successor?_eq_none hnone]
      rfl

/-! ## The table of an enumeration -/

/-- The value that a member has where a member without an initializer would have the value `next`. -/
def valueFrom (next : Option Int) (m : Cursor) : NumberResult (Option Constant) :=
  if m.kind == .enumAssignment then
    match m.child? .value with
    | some e => constantValue? e
    | none => pure none
  else pure (next.map fun n => .number (.exact n))

lemma membersFrom_cons (m : Cursor) (rest : List Cursor) :
    membersFrom next table (m :: rest) = (do
      let value ← valueFrom next m
      match memberName? m with
      | none => membersFrom next table rest
      | some name => membersFrom (successor? value) (Table.put name value table) rest) := by
  rw [membersFrom, valueFrom, memberName?]
  by_cases hkind : (m.kind == .enumAssignment) = true
  · simp only [if_pos hkind]
    rcases m.child? .value with - | e
    · rfl
    · rcases hvalue : constantValue? e with err | v
      · simp only [hvalue]
        rfl
      · simp only [hvalue]
        rfl
  · simp only [if_neg hkind]
    rfl

/-- What a member without an initializer has as its value behind some members. -/
inductive Follows : List Cursor → Option Int → Prop
  | first : Follows [] (some 0)
  | next {before : List Cursor} {p : Cursor} {v : Option Constant} :
    HasValue before p v → Follows (before ++ [p]) (successor? v)

/-- One member: the value that is worked out for it is the one that it has. -/
lemma Follows.hasValue (h : Follows before next) (hvalue : valueFrom next m = .ok v) :
    HasValue before m v := by
  unfold valueFrom at hvalue
  split at hvalue
  case isTrue hkind =>
    have hassignment : m.kind = .enumAssignment := eq_of_beq hkind
    split at hvalue
    case h_1 e he =>
      rcases v with - | k
      · refine .computed hassignment fun e' he' k hk => ?_
        obtain rfl : e = e' := Option.some.inj (he.symm.trans he')
        rw [denotes_iff.1 hk] at hvalue
        cases hvalue
      · exact .constant hassignment he (denotes_iff.2 hvalue)
    case h_2 hnone =>
      cases hvalue
      refine .computed hassignment fun e he => ?_
      rw [hnone] at he
      cases he
  case isFalse hkind =>
    have hplain : m.kind ≠ .enumAssignment := fun heq => hkind (beq_iff_eq.2 heq)
    cases hvalue
    cases h with
    | first => exact .first hplain
    | @next before p u hp =>
      by_cases hinteger : ∃ n, u = some (.number (.exact n))
      · obtain ⟨n, rfl⟩ := hinteger
        exact .next hplain hp
      · have hnone : ∀ n, u ≠ some (.number (.exact n)) := fun n hn => hinteger ⟨n, hn⟩
        rw [successor?_eq_none hnone]
        exact .unknown hplain hp hnone

/-- All members: the last one of a name leaves its value in the table. -/
lemma Follows.lookup_membersFrom (h : Follows before next)
    (hrun : membersFrom next table ms = .ok table') :
    (∀ name, (∀ m ∈ ms, memberName? m ≠ some name) → table'.lookup name = table.lookup name) ∧
      ∀ front m back name, ms = front ++ m :: back → memberName? m = some name →
        (∀ m' ∈ back, memberName? m' ≠ some name) →
        ∃ v, HasValue (before ++ front.filter hasName) m v ∧ table'.lookup name = some v := by
  induction ms generalizing before next table with
  | nil =>
    cases hrun
    exact ⟨fun _ _ => rfl, fun front m back _ hsplit => absurd hsplit (by simp)⟩
  | cons m₀ rest ih =>
    rw [membersFrom_cons] at hrun
    rcases hvalue : valueFrom next m₀ with err | v₀
    · rw [hvalue] at hrun
      cases hrun
    rw [hvalue] at hrun
    rcases hname : memberName? m₀ with - | name₀
    · -- a member whose name cannot be read leaves everything as it is
      simp only [hname] at hrun
      obtain ⟨hother, hlast⟩ := ih h hrun
      refine ⟨fun name hne => hother name fun m hm => hne m (List.mem_cons_of_mem _ hm), ?_⟩
      rintro (- | ⟨m', front⟩) m back name hsplit hm hback
      · obtain ⟨rfl, -⟩ := List.cons.inj hsplit
        rw [hname] at hm
        cases hm
      · obtain ⟨rfl, hrest⟩ := List.cons.inj hsplit
        obtain ⟨v, hv, hlookup⟩ := hlast front m back name hrest hm hback
        refine ⟨v, ?_, hlookup⟩
        rwa [List.filter_cons_of_neg (by simp [hasName, hname])]
    · simp only [hname] at hrun
      have hvalue₀ : HasValue before m₀ v₀ := h.hasValue hvalue
      obtain ⟨hother, hlast⟩ := ih (Follows.next hvalue₀) hrun
      constructor
      · intro name hne
        have hname₀ : name ≠ name₀ := by
          rintro rfl
          exact hne m₀ List.mem_cons_self hname
        rw [hother name fun m hm => hne m (List.mem_cons_of_mem _ hm), Table.lookup_put,
          if_neg hname₀]
      · rintro (- | ⟨m', front⟩) m back name hsplit hm hback
        · obtain ⟨rfl, rfl⟩ := List.cons.inj hsplit
          obtain rfl : name₀ = name := Option.some.inj (hname.symm.trans hm)
          refine ⟨v₀, ?_, ?_⟩
          · rwa [List.filter_nil, List.append_nil]
          · rw [hother name₀ hback, Table.lookup_put, if_pos rfl]
        · obtain ⟨rfl, hrest⟩ := List.cons.inj hsplit
          obtain ⟨v, hv, hlookup⟩ := hlast front m back name hrest hm hback
          refine ⟨v, ?_, hlookup⟩
          rwa [List.filter_cons_of_pos (by simp [hasName, hname]), List.append_cons]

end

/-- **The values of an enumeration.**  For every enumeration of a legible tree there is a table.  Under the name
of a member, the last one of that name, the table has the value that the member has behind the members
before it whose names can be read, and no other value; so it is the value that the member has if all the
names before it can be read.  Under any other name the table has nothing. -/
theorem enumMembers_of_legible {program : Node} (hlegible : program.Legible) {d : Cursor}
    (hd : Source.Within program d) :
    ∃ table, enumMembers d = .ok table ∧
      (∀ name, (∀ m ∈ members d, memberName? m ≠ some name) → table.lookup name = none) ∧
      ∀ before m after name, members d = before ++ m :: after → memberName? m = some name →
        (∀ m' ∈ after, memberName? m' ≠ some name) →
        ∃ v, table.lookup name = some v ∧ (∀ u, HasValue (before.filter hasName) m u ↔ u = v) ∧
          ((∀ p ∈ before, hasName p = true) → HasValue before m v) := by
  obtain ⟨table, htable⟩ := exists_enumMembers hlegible hd
  have hrun : membersFrom (some 0) [] (members d) = .ok table := by
    rw [enumMembers] at htable
    rw [members]
    rcases hbody : d.child? .body with - | body
    · rw [hbody] at htable
      exact htable
    · rw [hbody] at htable
      exact htable
  obtain ⟨hother, hlast⟩ := Follows.first.lookup_membersFrom hrun
  refine ⟨table, htable, hother, fun before m after name hsplit hm hafter => ?_⟩
  obtain ⟨v, hv, hlookup⟩ := hlast before m after name hsplit hm hafter
  rw [List.nil_append] at hv
  refine ⟨v, hlookup, fun u => ⟨fun hu => hu.unique hv, fun heq => heq ▸ hv⟩, fun hnamed => ?_⟩
  rwa [List.filter_eq_self.2 hnamed] at hv

end RouteScribe.Typing

namespace RouteScribe.Route

open Typing
open Source (Node Cursor)

section

variable {m e : Cursor} {n : Int}

/-- A member with a numeric literal as its initializer. -/
lemma hasValue_number (before : List Cursor) (hkind : m.kind = .enumAssignment)
    (he : m.child? .value = some e) (hnumber : e.kind = .number)
    (hread : Numeral.read e.text = .ok (some (.exact n))) :
    HasValue before m (some (.number (.exact n))) :=
  .constant hkind he (.number hnumber hread)

end

/-- An enumeration that counts on from a constant. -/
def countingText : String := "enum E \x7b A = 200, B, C = 'x', D \x7d\n"

set_option maxRecDepth 10000 in
lemma countingText_spec : ∃ program, Source.parse .plain countingText = some program ∧
    let node := program.nth
    members (node 1) = [node 6, node 11, node 13, node 18] ∧
      [node 6, node 11, node 13, node 18].map memberName? = [some "A", some "B", some "C", some "D"] ∧
      (node 6).kind = .enumAssignment ∧ (node 6).child? .value = some (node 9) ∧
      (node 9).kind = .number ∧ (node 9).text = "200" ∧ (node 11).kind = .propertyName :=
  exists_program (by decide +kernel)

/-- The member after the constant has the integer after it. -/
theorem enumMembers_of_counting : ∃ program, Source.parse .plain countingText = some program ∧
    program.Legible ∧ Source.Within program (program.nth 1) ∧
    ∃ table, enumMembers (program.nth 1) = .ok table ∧
      table.lookup "B" = some (some (.number (.exact 201))) ∧ table.lookup "E" = none := by
  obtain ⟨program, hparse, hmembers, hnames, hkind, hvalue, hnumber, htext, hplain⟩ := countingText_spec
  simp only [List.map_cons, List.map_nil, List.cons.injEq, and_true] at hnames
  obtain ⟨hA, hB, hC, hD⟩ := hnames
  have hd : Source.Within program (program.nth 1) := Source.within_nth program 1
  have hlegible : program.Legible := Source.legible_of_parse hparse
  obtain ⟨table, htable, hother, hlast⟩ := enumMembers_of_legible hlegible hd
  obtain ⟨v, hlookup, hv, -⟩ := hlast [program.nth 6] (program.nth 11) [program.nth 13, program.nth 18]
    "B" hmembers hB (by simp [hC, hD])
  have hfirst : HasValue [] (program.nth 6) (some (.number (.exact 200))) :=
    hasValue_number [] hkind hvalue hnumber (by rw [htext]; decide)
  have hnext : HasValue ([] ++ [program.nth 6]) (program.nth 11) (some (.number (.exact 201))) :=
    .next (by rw [hplain]; decide) hfirst
  have hfilter : [program.nth 6].filter hasName = [] ++ [program.nth 6] := by
    simp [hasName, hA]
  rw [hfilter] at hv
  refine ⟨program, hparse, hlegible, hd, table, htable, ?_, hother "E" ?_⟩
  · rw [hlookup, (hv _).1 hnext]
  · rw [hmembers]
    simp [hA, hB, hC, hD]

/-- An enumeration with a computed name. -/
def computedNameText : String := "enum S \x7b A = 200, ['B'] = 404, C \x7d\n"

set_option maxRecDepth 10000 in
lemma computedNameText_spec : ∃ program, Source.parse .plain computedNameText = some program ∧
    let node := program.nth
    members (node 1) = [node 6, node 11, node 19] ∧ memberName? (node 19) = some "C" ∧
      (node 11).kind = .enumAssignment ∧ (node 11).child? .value = some (node 17) ∧
      (node 17).kind = .number ∧ (node 17).text = "404" ∧ (node 19).kind = .propertyName ∧
      enumMembers (node 1) =
        .ok [("A", some (.number (.exact 200))), ("C", some (.number (.exact 201)))] :=
  exists_program (by decide +kernel)

/-- **A computed name stops the count.**  The member `C` comes after one with the value 404, so it has
the value 405.  In the table it has the value 201, the integer after the last name that was read. -/
theorem enumMembers_of_computedName : ∃ program, Source.parse .plain computedNameText = some program ∧
    ∃ before m, members (program.nth 1) = before ++ [m] ∧ memberName? m = some "C" ∧
      HasValue before m (some (.number (.exact 405))) ∧
      enumMembers (program.nth 1) =
        .ok [("A", some (.number (.exact 200))), ("C", some (.number (.exact 201)))] := by
  obtain ⟨program, hparse, hmembers, hname, hkind, hvalue, hnumber, htext, hplain, htable⟩ :=
    computedNameText_spec
  have hbefore : HasValue [program.nth 6] (program.nth 11) (some (.number (.exact 404))) :=
    hasValue_number [program.nth 6] hkind hvalue hnumber (by rw [htext]; decide)
  exact ⟨program, hparse, [program.nth 6] ++ [program.nth 11], program.nth 19, hmembers, hname,
    .next (by rw [hplain]; decide) hbefore, htable⟩

end RouteScribe.Route
