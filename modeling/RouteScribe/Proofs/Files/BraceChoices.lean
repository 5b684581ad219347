import Mathlib.Data.List.Lex
import RouteScribe.Files.Braces
import RouteScribe.Proofs.Text.Fields

/-!
# What brace alternatives stand for

A pattern of plain characters and groups of alternatives (`Braced`) stands for the texts that are left
when one alternative is chosen in every group that is left (`Braced.Chooses`).  Its expansion works on
the characters alone: it replaces the leftmost group without further braces inside, so the
alternatives of a group are multiplied out before the group itself is.

Both are compared along the pattern, from left to right.  Everything to the left of a part has been
multiplied out by then, so it may hold opening braces of the groups around the part, and no closing
brace.  With such a text in front, expanding a part first, and then the rest, gives the same texts
(`Braced.mem_expandChars`); a group whose alternatives are plain is replaced by each of them in turn
(`expandChars_group`).
-/

namespace RouteScribe.Files

/-! ## Patterns -/

/-- A character that stands for itself: no brace, and inside a group no comma. -/
def IsLiteral (inside : Bool) (c : Char) : Prop := c ≠ '{' ∧ c ≠ '}' ∧ (inside = true → c ≠ ',')

instance (inside : Bool) (c : Char) : Decidable (IsLiteral inside c) := by
  unfold IsLiteral; infer_instance

mutual

/-- Plain characters and groups of alternatives.  Inside a group, commas separate the alternatives, so
they are no plain characters there. -/
inductive Braced : Bool → Type
  | done {inside : Bool} : Braced inside
  | char {inside : Bool} (c : Char) (h : IsLiteral inside c) (rest : Braced inside) : Braced inside
  | group {inside : Bool} (options : Alternatives) (rest : Braced inside) : Braced inside

/-- Two or more alternatives. -/
inductive Alternatives : Type
  | two (first second : Braced true)
  | more (first : Braced true) (others : Alternatives)

end

mutual

/-- The characters of a pattern. -/
def Braced.chars {inside : Bool} : Braced inside → List Char
  | .done => []
  | .char c _ rest => c :: rest.chars
  | .group options rest => '{' :: (options.chars ++ '}' :: rest.chars)

/-- The characters of alternatives, with commas between them. -/
def Alternatives.chars : Alternatives → List Char
  | .two first second => first.chars ++ ',' :: second.chars
  | .more first others => first.chars ++ ',' :: others.chars

end

mutual

/-- A text is left when one alternative is chosen in every group that is left. -/
inductive Braced.Chooses : {inside : Bool} → Braced inside → List Char → Prop
  | done {inside : Bool} : Braced.Chooses (.done : Braced inside) []
  | char {inside : Bool} {c : Char} {h : IsLiteral inside c} {rest : Braced inside} {s : List Char} :
    rest.Chooses s → Braced.Chooses (.char c h rest) (c :: s)
  | group {inside : Bool} {options : Alternatives} {rest : Braced inside} {o s : List Char} :
    options.Chooses o → rest.Chooses s → Braced.Chooses (.group options rest) (o ++ s)

/-- A text is left of one of the alternatives. -/
inductive Alternatives.Chooses : Alternatives → List Char → Prop
  | first {first second : Braced true} {s : List Char} :
    first.Chooses s → Alternatives.Chooses (.two first second) s
  | second {first second : Braced true} {s : List Char} :
    second.Chooses s → Alternatives.Chooses (.two first second) s
  | here {first : Braced true} {others : Alternatives} {s : List Char} :
    first.Chooses s → Alternatives.Chooses (.more first others) s
  | later {first : Braced true} {others : Alternatives} {s : List Char} :
    others.Chooses s → Alternatives.Chooses (.more first others) s

end

/-! ## Expansion -/

section

variable {before body after cs : List Char}

lemma expandChars_of_none (h : findGroup? cs = none) : expandChars cs = [cs] := by
  rw [expandChars]
  split
  · rfl
  · rename_i g hg
    rw [h] at hg
    cases hg

lemma expandChars_of_some {g : BraceGroup} (h : findGroup? cs = some g) :
    expandChars cs = g.options.flatMap fun o => expandChars (g.before ++ o ++ g.after) := by
  rw [expandChars]
  split
  · rename_i hnone
    rw [h] at hnone
    cases hnone
  · rename_i g' hg
    rw [h] at hg
    cases hg
    rw [List.flatMap_subtype (g := fun o => expandChars (g.before ++ o ++ g.after)) fun o ho => rfl,
      List.unattach_attach]

/-- What is expanded once needs no further expansion. -/
lemma expandChars_of_mem {r : List Char} (h : r ∈ expandChars cs) : expandChars r = [r] := by
  induction hn : openBraces cs using Nat.strong_induction_on generalizing cs with
  | _ n ih =>
    rcases hg : findGroup? cs with - | g
    · rw [expandChars_of_none hg, List.mem_singleton] at h
      rw [h, expandChars_of_none hg]
    · rw [expandChars_of_some hg] at h
      obtain ⟨o, ho, hr⟩ := List.mem_flatMap.1 h
      exact ih _ (hn ▸ openBraces_option_lt hg ho) hr rfl

lemma options_ne_nil {g : BraceGroup} (h : findGroup? cs = some g) : g.options ≠ [] := by
  induction cs generalizing g with
  | nil => cases h
  | cons c cs ih =>
    have hlater {g : BraceGroup} : (findGroup? cs).map (fun g => { g with before := c :: g.before }) = some g →
        g.options ≠ [] := by
      intro h
      obtain ⟨g', hg', rfl⟩ := Option.map_eq_some_iff.1 h
      have hrest := ih hg'
      exact hrest
    rw [findGroup?] at h
    split at h
    · split at h
      · cases h
        exact Text.fields_ne_nil _ _
      · exact hlater h
    · exact hlater h

lemma expandChars_ne_nil (cs : List Char) : expandChars cs ≠ [] := by
  induction hn : openBraces cs using Nat.strong_induction_on generalizing cs with
  | _ n ih =>
    rcases hg : findGroup? cs with - | g
    · rw [expandChars_of_none hg]
      exact List.cons_ne_nil _ _
    · obtain ⟨o, ho⟩ := List.exists_mem_of_ne_nil _ (options_ne_nil hg)
      obtain ⟨r, hr⟩ := List.exists_mem_of_ne_nil _
        (ih _ (hn ▸ openBraces_option_lt hg ho) _ rfl)
      rw [expandChars_of_some hg]
      exact List.ne_nil_of_mem (List.mem_flatMap.2 ⟨o, ho, hr⟩)

/-! ### The leftmost group without further braces -/

lemma findGroup?_of_notMem (h : '{' ∉ cs) : findGroup? cs = none := by
  induction cs with
  | nil => rfl
  | cons c cs ih =>
    rw [List.mem_cons, not_or] at h
    rw [findGroup?, if_neg fun hc => h.1 hc.symm, ih h.2]
    rfl

lemma groupBody?_plain (hbody : ∀ c ∈ body, c ≠ '{' ∧ c ≠ '}') (hcomma : ',' ∈ body) :
    groupBody? (body ++ '}' :: after) = some (body, after) := by
  have hplain : ∀ c ∈ body, (c != '{' && c != '}') = true := fun c hc => by simp [hbody c hc]
  rw [groupBody?, List.takeWhile_append_of_pos hplain, List.dropWhile_append_of_pos hplain]
  simp [hcomma]

/-- A group is not closed before another one opens. -/
lemma groupBody?_open (hbefore : '}' ∉ before) : groupBody? (before ++ '{' :: after) = none := by
  have hdrop : ∃ rest, (before ++ '{' :: after).dropWhile (fun c => c != '{' && c != '}') =
      '{' :: rest := by
    induction before with
    | nil => exact ⟨after, rfl⟩
    | cons c before ih =>
      rw [List.mem_cons, not_or] at hbefore
      by_cases hc : c = '{'
      · exact ⟨before ++ '{' :: after, by simp [hc]⟩
      · obtain ⟨rest, hrest⟩ := ih hbefore.2
        exact ⟨rest, by simp [hc, Ne.symm hbefore.1, hrest]⟩
  obtain ⟨rest, hrest⟩ := hdrop
  rw [groupBody?, hrest]
  rfl

/-- Behind a text without closing braces, a group without further braces is the first that is
found. -/
lemma findGroup?_group (hbefore : '}' ∉ before) (hbody : ∀ c ∈ body, c ≠ '{' ∧ c ≠ '}')
    (hcomma : ',' ∈ body) : findGroup? (before ++ '{' :: (body ++ '}' :: after)) =
      some ⟨before, Text.fields ',' body, after⟩ := by
  induction before with
  | nil => rw [List.nil_append, findGroup?, if_pos rfl, groupBody?_plain hbody hcomma]
  | cons c before ih =>
    rw [List.mem_cons, not_or] at hbefore
    rw [List.cons_append, findGroup?, ih hbefore.2, groupBody?_open hbefore.2]
    simp

/-- A group of plain alternatives is replaced by each of them in turn. -/
lemma expandChars_group {options : List (List Char)} (after : List Char) (hbefore : '}' ∉ before)
    (htwo : 2 ≤ options.length) (hplain : ∀ o ∈ options, ∀ c ∈ o, IsLiteral true c) :
    expandChars (before ++ '{' :: (Text.joinFields ',' options ++ '}' :: after)) =
      options.flatMap fun o => expandChars (before ++ o ++ after) := by
  obtain ⟨first, second, others, rfl⟩ : ∃ first second others, options = first :: second :: others := by
    match options, htwo with
    | first :: second :: others, _ => exact ⟨first, second, others, rfl⟩
  have hbody : ∀ c ∈ Text.joinFields ',' (first :: second :: others), c ≠ '{' ∧ c ≠ '}' := by
    intro c hc
    obtain rfl | ⟨o, ho, hco⟩ := Text.mem_joinFields hc
    · decide
    · exact ⟨(hplain o ho c hco).1, (hplain o ho c hco).2.1⟩
  have hcut : Text.fields ',' (Text.joinFields ',' (first :: second :: others)) =
      first :: second :: others :=
    Text.fields_joinFields (List.cons_ne_nil _ _) fun o ho hcomma => (hplain o ho _ hcomma).2.2 rfl rfl
  rw [expandChars_of_some (findGroup?_group hbefore hbody (by simp [Text.joinFields])), hcut]

end

/-! ## Patterns and their expansion -/

/-- One text is left of each alternative. -/
inductive Alternatives.ChoosesEach : Alternatives → List (List Char) → Prop
  | two {first second : Braced true} {o o' : List Char} :
    first.Chooses o → second.Chooses o' → ChoosesEach (.two first second) [o, o']
  | more {first : Braced true} {others : Alternatives} {o : List Char} {os : List (List Char)} :
    first.Chooses o → others.ChoosesEach os → ChoosesEach (.more first others) (o :: os)

mutual

lemma Braced.exists_chooses {inside : Bool} : ∀ t : Braced inside, ∃ s, t.Chooses s
  | .done => ⟨[], .done⟩
  | .char c _ rest =>
    let ⟨s, hs⟩ := rest.exists_chooses
    ⟨c :: s, .char hs⟩
  | .group options rest =>
    let ⟨o, ho⟩ := options.exists_chooses
    let ⟨s, hs⟩ := rest.exists_chooses
    ⟨o ++ s, .group ho hs⟩

lemma Alternatives.exists_chooses : ∀ options : Alternatives, ∃ o, options.Chooses o
  | .two first _ =>
    let ⟨o, ho⟩ := first.exists_chooses
    ⟨o, .first ho⟩
  | .more first _ =>
    let ⟨o, ho⟩ := first.exists_chooses
    ⟨o, .here ho⟩

end

mutual

/-- What is left of a pattern holds no braces, and inside a group no commas. -/
lemma Braced.Chooses.isLiteral : ∀ {inside : Bool} {t : Braced inside} {s : List Char},
    t.Chooses s → ∀ c ∈ s, IsLiteral inside c
  | _, .done, _, .done => by simp
  | _, .char _ h _, _, .char hrest => List.forall_mem_cons.2 ⟨h, hrest.isLiteral⟩
  | _, .group _ _, _, .group ho hrest => List.forall_mem_append.2
    ⟨fun c hc => ⟨(ho.isLiteral c hc).1, (ho.isLiteral c hc).2.1, fun _ => (ho.isLiteral c hc).2.2 rfl⟩,
      hrest.isLiteral⟩

lemma Alternatives.Chooses.isLiteral : ∀ {options : Alternatives} {o : List Char},
    options.Chooses o → ∀ c ∈ o, IsLiteral true c
  | .two _ _, _, .first h => h.isLiteral
  | .two _ _, _, .second h => h.isLiteral
  | .more _ _, _, .here h => h.isLiteral
  | .more _ _, _, .later h => h.isLiteral

end

namespace Alternatives

lemma exists_choosesEach : ∀ options : Alternatives, ∃ os, options.ChoosesEach os
  | .two first second =>
    let ⟨_, ho⟩ := first.exists_chooses
    let ⟨_, ho'⟩ := second.exists_chooses
    ⟨_, .two ho ho'⟩
  | .more first others =>
    let ⟨_, ho⟩ := first.exists_chooses
    let ⟨_, hos⟩ := exists_choosesEach others
    ⟨_, .more ho hos⟩

variable {options : Alternatives} {o : List Char} {os : List (List Char)}

lemma ChoosesEach.chooses (h : options.ChoosesEach os) (ho : o ∈ os) : options.Chooses o := by
  induction h with
  | two hfirst hsecond =>
    simp only [List.mem_cons, List.not_mem_nil, or_false] at ho
    rcases ho with rfl | rfl
    · exact .first hfirst
    · exact .second hsecond
  | more hfirst _ ih =>
    rcases List.mem_cons.1 ho with rfl | ho
    · exact .here hfirst
    · exact .later (ih ho)

lemma ChoosesEach.two_le_length (h : options.ChoosesEach os) : 2 ≤ os.length := by
  induction h with
  | two => exact le_rfl
  | more _ _ ih => exact Nat.le_succ_of_le ih

lemma ChoosesEach.joinFields_cons (h : options.ChoosesEach os) (o : List Char) :
    Text.joinFields ',' (o :: os) = o ++ ',' :: Text.joinFields ',' os := by
  cases h with
  | two => rfl
  | more => rfl

/-- What is left of one alternative stands among texts that are left of all. -/
lemma Chooses.exists_choosesEach : ∀ {options : Alternatives} {o : List Char}, options.Chooses o →
    ∃ os, options.ChoosesEach os ∧ o ∈ os
  | .two _ t, _, .first h =>
    let ⟨_, ht⟩ := t.exists_chooses
    ⟨_, .two h ht, by simp⟩
  | .two t _, _, .second h =>
    let ⟨_, ht⟩ := t.exists_chooses
    ⟨_, .two ht h, by simp⟩
  | .more _ others, _, .here h =>
    let ⟨_, hos⟩ := others.exists_choosesEach
    ⟨_, .more h hos, by simp⟩
  | .more t _, _, .later h =>
    let ⟨_, ht⟩ := t.exists_chooses
    let ⟨_, hos, hmem⟩ := exists_choosesEach h
    ⟨_, .more ht hos, List.mem_cons_of_mem _ hmem⟩

end Alternatives

lemma notMem_append_of_isLiteral {inside : Bool} {before o : List Char} (hbefore : '}' ∉ before)
    (ho : ∀ c ∈ o, IsLiteral inside c) : '}' ∉ before ++ o := fun hmem =>
  (List.mem_append.1 hmem).elim hbefore fun hmem => (ho _ hmem).2.1 rfl

mutual

/-- A part of a pattern can be expanded before what follows it. -/
theorem Braced.mem_expandChars {inside : Bool} (t : Braced inside) {before s : List Char}
    (after : List Char) (hbefore : '}' ∉ before) : s ∈ expandChars (before ++ t.chars ++ after) ↔
      ∃ a, t.Chooses a ∧ s ∈ expandChars (before ++ a ++ after) := by
  match t with
  | .done =>
    refine ⟨fun h => ⟨[], .done, h⟩, fun ⟨a, ha, h⟩ => ?_⟩
    cases ha
    exact h
  | .char c hc rest =>
    have hmove (r : List Char) : before ++ c :: r ++ after = before ++ [c] ++ r ++ after := by simp
    have hbefore' : '}' ∉ before ++ [c] :=
      notMem_append_of_isLiteral hbefore (List.forall_mem_singleton.2 hc)
    rw [Braced.chars, hmove, rest.mem_expandChars _ hbefore']
    constructor
    · rintro ⟨a, ha, h⟩
      exact ⟨c :: a, .char ha, hmove a ▸ h⟩
    · rintro ⟨_, ha, h⟩
      cases ha with
      | char ha => exact ⟨_, ha, hmove _ ▸ h⟩
  | .group options rest =>
    have hopen : '}' ∉ before ++ ['{'] := by simpa using hbefore
    have hmove : before ++ (Braced.group options rest : Braced inside).chars ++ after =
        before ++ ['{'] ++ options.chars ++ '}' :: (rest.chars ++ after) := by
      simp [Braced.chars]
    have hchosen {os : List (List Char)} (hos : options.ChoosesEach os) :
        s ∈ expandChars (before ++ ['{'] ++ Text.joinFields ',' os ++ '}' :: (rest.chars ++ after)) ↔
          ∃ o ∈ os, ∃ a, rest.Chooses a ∧ s ∈ expandChars (before ++ (o ++ a) ++ after) := by
      have hplain : ∀ o ∈ os, ∀ c ∈ o, IsLiteral true c := fun o ho => (hos.chooses ho).isLiteral
      have hgroup := expandChars_group (rest.chars ++ after) hbefore hos.two_le_length hplain
      rw [List.append_assoc, List.append_assoc, List.singleton_append, hgroup, List.mem_flatMap]
      refine exists_congr fun o => and_congr_right fun ho => ?_
      have hnext := rest.mem_expandChars (s := s) after
        (notMem_append_of_isLiteral hbefore (hplain o ho))
      simpa only [List.append_assoc] using hnext
    rw [hmove, options.mem_expandChars _ hopen]
    constructor
    · rintro ⟨os, hos, h⟩
      obtain ⟨o, ho, a, ha, h⟩ := (hchosen hos).1 h
      exact ⟨o ++ a, .group (hos.chooses ho) ha, h⟩
    · rintro ⟨_, ha, h⟩
      cases ha with
      | group ho ha =>
        obtain ⟨os, hos, hmem⟩ := ho.exists_choosesEach
        exact ⟨os, hos, (hchosen hos).2 ⟨_, hmem, _, ha, h⟩⟩

/-- The alternatives of a group are multiplied out before the group is. -/
theorem Alternatives.mem_expandChars (options : Alternatives) {before s : List Char}
    (after : List Char) (hbefore : '}' ∉ before) : s ∈ expandChars (before ++ options.chars ++ after) ↔
      ∃ os, options.ChoosesEach os ∧
        s ∈ expandChars (before ++ Text.joinFields ',' os ++ after) := by
  have hmove (o r : List Char) : before ++ (o ++ ',' :: r) ++ after =
      before ++ o ++ (',' :: (r ++ after)) := by simp
  have hmove' (o r : List Char) : before ++ (o ++ ',' :: r) ++ after =
      before ++ (o ++ [',']) ++ r ++ after := by simp
  have hcomma {first : Braced true} {o : List Char} (ho : first.Chooses o) :
      '}' ∉ before ++ (o ++ [',']) := by
    have hmem := notMem_append_of_isLiteral hbefore ho.isLiteral
    simpa using hmem
  match options with
  | .two first second =>
    rw [Alternatives.chars, hmove, first.mem_expandChars _ hbefore]
    constructor
    · rintro ⟨o, ho, h⟩
      rw [← hmove, hmove', second.mem_expandChars _ (hcomma ho)] at h
      obtain ⟨o', ho', h⟩ := h
      exact ⟨[o, o'], .two ho ho', hmove' o o' ▸ h⟩
    · rintro ⟨_, hos, h⟩
      cases hos with
      | two ho ho' =>
        refine ⟨_, ho, ?_⟩
        rw [← hmove, hmove', second.mem_expandChars _ (hcomma ho)]
        exact ⟨_, ho', hmove' _ _ ▸ h⟩
  | .more first others =>
    rw [Alternatives.chars, hmove, first.mem_expandChars _ hbefore]
    constructor
    · rintro ⟨o, ho, h⟩
      rw [← hmove, hmove', others.mem_expandChars _ (hcomma ho)] at h
      obtain ⟨os, hos, h⟩ := h
      exact ⟨o :: os, .more ho hos, by rwa [hos.joinFields_cons, hmove']⟩
    · rintro ⟨_, hos, h⟩
      cases hos with
      | more ho hos =>
        refine ⟨_, ho, ?_⟩
        rw [← hmove, hmove', others.mem_expandChars _ (hcomma ho)]
        exact ⟨_, hos, by rwa [hos.joinFields_cons, hmove'] at h⟩

end

/-- A text without opening braces stands for itself. -/
lemma expandChars_of_notMem {cs : List Char} (h : '{' ∉ cs) : expandChars cs = [cs] :=
  expandChars_of_none (findGroup?_of_notMem h)

/-- The expansion of a pattern gives the texts that are left by choosing. -/
lemma mem_expandChars_iff (t : Braced false) {s : List Char} :
    s ∈ expandChars t.chars ↔ t.Chooses s := by
  have hall := t.mem_expandChars (s := s) [] List.not_mem_nil
  simp only [List.nil_append, List.append_nil] at hall
  have hself {a : List Char} (ha : t.Chooses a) : expandChars a = [a] :=
    expandChars_of_notMem fun hmem => (ha.isLiteral _ hmem).1 rfl
  rw [hall]
  constructor
  · rintro ⟨a, ha, hs⟩
    rw [hself ha, List.mem_singleton] at hs
    exact hs ▸ ha
  · exact fun hs => ⟨s, hs, by simp [hself hs]⟩

/-! ## Patterns without groups inside groups -/

/-- No group stands in the pattern. -/
def Braced.IsPlain {inside : Bool} : Braced inside → Prop
  | .done => True
  | .char _ _ rest => rest.IsPlain
  | .group _ _ => False

namespace Alternatives

/-- The alternatives as they are written. -/
def texts : Alternatives → List (List Char)
  | .two first second => [first.chars, second.chars]
  | .more first others => first.chars :: others.texts

/-- No group stands in any of the alternatives. -/
def ArePlain : Alternatives → Prop
  | .two first second => first.IsPlain ∧ second.IsPlain
  | .more first others => first.IsPlain ∧ others.ArePlain

end Alternatives

namespace Braced

/-- No group stands inside a group. -/
def IsFlat {inside : Bool} : Braced inside → Prop
  | .done => True
  | .char _ _ rest => rest.IsFlat
  | .group options rest => options.ArePlain ∧ rest.IsFlat

/-- How many alternatives each group has, from left to right. -/
def widths {inside : Bool} : Braced inside → List Nat
  | .done => []
  | .char _ _ rest => rest.widths
  | .group options rest => options.texts.length :: rest.widths

/-- The text that is left when the alternatives with the given numbers are chosen, one number for each
group from left to right. -/
def pick {inside : Bool} : Braced inside → List Nat → List Char
  | .done, _ => []
  | .char c _ rest, numbers => c :: rest.pick numbers
  | .group options rest, numbers =>
    options.texts.getD (numbers.headD 0) [] ++ rest.pick numbers.tail

end Braced

/-- All lists of numbers below the given bounds; the first number changes last. -/
def numberings : List Nat → List (List Nat)
  | [] => [[]]
  | bound :: bounds => (List.range bound).flatMap fun n => (numberings bounds).map (n :: ·)

lemma mem_numberings_iff {bounds numbers : List Nat} :
    numbers ∈ numberings bounds ↔ List.Forall₂ (· < ·) numbers bounds := by
  induction bounds generalizing numbers with
  | nil => simp [numberings]
  | cons bound bounds ih =>
    rw [numberings, List.mem_flatMap, List.forall₂_cons_right_iff]
    simp only [List.mem_range, List.mem_map, ih]
    constructor
    · rintro ⟨n, hn, rest, hrest, rfl⟩
      exact ⟨n, rest, hn, hrest, rfl⟩
    · rintro ⟨n, rest, hn, hrest, rfl⟩
      exact ⟨n, hn, rest, hrest, rfl⟩

/-- The lists of numbers stand in lexicographic order. -/
lemma pairwise_numberings (bounds : List Nat) : (numberings bounds).Pairwise (· < ·) := by
  induction bounds with
  | nil => exact List.pairwise_singleton _ _
  | cons bound bounds ih =>
    refine List.pairwise_flatMap.2 ⟨fun n _ => ?_, List.pairwise_lt_range.imp fun hlt => ?_⟩
    · exact List.pairwise_map.2 (ih.imp fun hlt => List.cons_lt_cons_iff.2 (.inr ⟨rfl, hlt⟩))
    · intro p hp q hq
      obtain ⟨p, -, rfl⟩ := List.mem_map.1 hp
      obtain ⟨q, -, rfl⟩ := List.mem_map.1 hq
      exact List.cons_lt_cons_iff.2 (.inl hlt)

lemma Braced.IsPlain.isLiteral : ∀ {inside : Bool} {t : Braced inside}, t.IsPlain →
    ∀ c ∈ t.chars, IsLiteral inside c
  | _, .done, _ => by simp [Braced.chars]
  | _, .char _ hc rest, h => List.forall_mem_cons.2 ⟨hc, Braced.IsPlain.isLiteral (t := rest) h⟩

namespace Alternatives

lemma ArePlain.isLiteral : ∀ {options : Alternatives}, options.ArePlain →
    ∀ o ∈ options.texts, ∀ c ∈ o, IsLiteral true c
  | .two _ _, ⟨hfirst, hsecond⟩ => by simpa [texts] using ⟨hfirst.isLiteral, hsecond.isLiteral⟩
  | .more _ _, ⟨hfirst, hothers⟩ => List.forall_mem_cons.2 ⟨hfirst.isLiteral, hothers.isLiteral⟩

lemma two_le_length_texts : ∀ options : Alternatives, 2 ≤ options.texts.length
  | .two _ _ => le_rfl
  | .more _ others => Nat.le_succ_of_le others.two_le_length_texts

lemma joinFields_texts : ∀ options : Alternatives, Text.joinFields ',' options.texts = options.chars
  | .two _ _ => rfl
  | .more first (.two second third) => rfl
  | .more first (.more second others) => by
    rw [texts, texts, Text.joinFields, chars, ← joinFields_texts (.more second others), texts]

end Alternatives

/-- A pattern without groups inside groups is expanded from left to right, each group in the order of
its alternatives. -/
lemma expandChars_flat {inside : Bool} (t : Braced inside) (ht : t.IsFlat) {before : List Char}
    (hopen : '{' ∉ before) (hclose : '}' ∉ before) :
    expandChars (before ++ t.chars) = (numberings t.widths).map (before ++ t.pick ·) := by
  match t with
  | .done =>
    rw [Braced.chars, List.append_nil, expandChars_of_notMem hopen]
    simp [Braced.widths, numberings, Braced.pick]
  | .char c hc rest =>
    have hmove (r : List Char) : before ++ c :: r = before ++ [c] ++ r := by simp
    have hopen' : '{' ∉ before ++ [c] := by simpa [hopen] using hc.1.symm
    have hclose' : '}' ∉ before ++ [c] := by simpa [hclose] using hc.2.1.symm
    rw [Braced.chars, hmove, expandChars_flat rest ht hopen' hclose']
    simp [Braced.widths, Braced.pick]
  | .group options rest =>
    obtain ⟨hplain, hrest⟩ := ht
    have hliteral := hplain.isLiteral
    have hnumbered : options.texts =
        (List.range options.texts.length).map fun n => options.texts.getD n [] := by
      refine List.ext_getElem (by simp) fun n hn _ => ?_
      simp [List.getElem?_eq_getElem hn]
    have hexpand {o : List Char} (ho : o ∈ options.texts) :
        expandChars (before ++ o ++ rest.chars) =
          (numberings rest.widths).map (before ++ o ++ rest.pick ·) := by
      refine expandChars_flat rest hrest ?_ ?_
      · exact fun hmem => (List.mem_append.1 hmem).elim hopen fun hmem => (hliteral o ho _ hmem).1 rfl
      · exact notMem_append_of_isLiteral hclose (hliteral o ho)
    rw [Braced.chars, ← options.joinFields_texts,
      expandChars_group _ hclose options.two_le_length_texts hliteral]
    calc options.texts.flatMap (fun o => expandChars (before ++ o ++ rest.chars))
        = options.texts.flatMap fun o =>
            (numberings rest.widths).map (before ++ o ++ rest.pick ·) :=
          List.flatMap_congr fun o ho => hexpand ho
      _ = (List.range options.texts.length).flatMap fun n =>
            (numberings rest.widths).map (before ++ options.texts.getD n [] ++ rest.pick ·) := by
          conv_lhs => rw [hnumbered, List.flatMap_map]
      _ = (numberings (Braced.group options rest : Braced inside).widths).map
            (before ++ (Braced.group options rest : Braced inside).pick ·) := by
          rw [Braced.widths, numberings, List.map_flatMap]
          simp [Braced.pick, Function.comp_def]

/-! ## Patterns as strings -/

/-- The text of a pattern. -/
def Braced.text (t : Braced false) : String := String.ofList t.chars

/-- **Brace alternatives.**  Every pattern has an expansion, and what is expanded once stands for
itself.  A pattern of groups, nested to any depth, stands for exactly the texts that are left when one
alternative is chosen in every group that is left.  If no group stands inside another one, the
expansion runs through all choices in lexicographic order, and gives one text for each of them. -/
theorem expandBraces_choices :
    (∀ pattern, expandBraces pattern ≠ [] ∧
      ∀ r ∈ expandBraces pattern, expandBraces r = [r]) ∧
    ∀ t : Braced false,
      (∀ s, s ∈ expandBraces t.text ↔ t.Chooses s.toList) ∧
      (t.IsFlat → ∃ choices : List (List Nat), choices.Pairwise (· < ·) ∧
        (∀ numbers, numbers ∈ choices ↔ List.Forall₂ (· < ·) numbers t.widths) ∧
        expandBraces t.text = choices.map fun numbers => String.ofList (t.pick numbers)) := by
  refine ⟨fun pattern => ⟨?_, fun r hr => ?_⟩, fun t => ⟨fun s => ?_, fun hflat => ?_⟩⟩
  · rw [expandBraces, Ne, List.map_eq_nil_iff]
    exact expandChars_ne_nil _
  · obtain ⟨cs, hcs, rfl⟩ := List.mem_map.1 hr
    rw [expandBraces, String.toList_ofList, expandChars_of_mem hcs, List.map_singleton]
  · rw [expandBraces, Braced.text, String.toList_ofList, ← mem_expandChars_iff, List.mem_map]
    constructor
    · rintro ⟨cs, hcs, rfl⟩
      rwa [String.toList_ofList]
    · exact fun h => ⟨s.toList, h, String.ofList_toList⟩
  · have hall := expandChars_flat t hflat List.not_mem_nil List.not_mem_nil
    refine ⟨numberings t.widths, pairwise_numberings _, fun numbers => mem_numberings_iff, ?_⟩
    rw [expandBraces, Braced.text, String.toList_ofList, ← List.nil_append t.chars, hall,
      List.map_map]
    rfl

/-- Two groups beside each other, one with an empty alternative. -/
theorem expandBraces_choices_sideBySide :
    ∃ t : Braced false, t.text = "a{b,,c}{d,e}" ∧ t.IsFlat ∧
      ∃ choices : List (List Nat), choices.Pairwise (· < ·) ∧
        (∀ numbers, numbers ∈ choices ↔ List.Forall₂ (· < ·) numbers [3, 2]) ∧
        expandBraces "a{b,,c}{d,e}" = choices.map (fun numbers => String.ofList (t.pick numbers)) ∧
        String.ofList (t.pick [1, 0]) = "ad" := by
  let first : Alternatives :=
    .more (.char 'b' (by decide) .done) (.two .done (.char 'c' (by decide) .done))
  let second : Alternatives := .two (.char 'd' (by decide) .done) (.char 'e' (by decide) .done)
  let t : Braced false := .char 'a' (by decide) (.group first (.group second .done))
  have hflat : t.IsFlat := ⟨⟨trivial, trivial, trivial⟩, ⟨trivial, trivial⟩, trivial⟩
  obtain ⟨choices, hlt, hmem, heq⟩ := (expandBraces_choices.2 t).2 hflat
  exact ⟨t, rfl, hflat, choices, hlt, hmem, heq, rfl⟩

/-- The group inside is multiplied out first, so a text can come up more than once. -/
example : expandBraces "{a,{b,c}}" = ["a", "b", "a", "c"] := by decide +kernel

end RouteScribe.Files
