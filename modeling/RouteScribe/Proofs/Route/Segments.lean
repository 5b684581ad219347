import Mathlib.Tactic
import RouteScribe.Route.Template

/-!
# Paths made of segments

A route path is a list of segments with slashes between them.  A segment is plain text, or a
parameter: a colon, a name, and perhaps a constraint in braces that ends the segment.  A constraint
is any text without a slash; it may hold braces and colons of its own.

The two readers of a path see a segment differently.  `templateOf` knows about constraints: the
template of a path has each parameter as its name in braces (`templateOf_pathChars`), and nothing else
in it stands in braces (`bracedIn_template_iff`).  `params` does not know about them: it reads the name of
each parameter, and then the names that follow a colon inside its constraint
(`paramsFrom_pathChars`).
-/

namespace RouteScribe.Route

/-- A text that a parameter can be called: not empty, and of name characters only. -/
def IsName (name : List Char) : Prop := name ≠ [] ∧ ∀ c ∈ name, isNameChar c = true

instance (name : List Char) : Decidable (IsName name) :=
  haveI : Decidable (∀ c ∈ name, isNameChar c = true) := List.decidableBAll _ name
  inferInstanceAs (Decidable (name ≠ [] ∧ ∀ c ∈ name, isNameChar c = true))

/-- A segment of a route path. -/
inductive Segment where
  /-- Text without colons and braces. -/
  | plain (text : List Char) (h : ∀ c ∈ text, c ∉ [':', '{', '}', '/'])
  /-- A name, and the text between the braces of its constraint if it has one. -/
  | parameter (name : List Char) (constraint : Option (List Char)) (hname : IsName name)
    (h : ∀ c ∈ constraint.getD [], c ≠ '/')

namespace Segment

/-- The constraint of a parameter with its braces. -/
def bracedConstraint : Option (List Char) → List Char
  | none => []
  | some inside => '{' :: inside ++ ['}']

/-- A segment as it is written in a route path. -/
def chars : Segment → List Char
  | plain text _ => text
  | parameter name constraint _ _ => ':' :: name ++ bracedConstraint constraint

/-- A segment as it is written in a template. -/
def templateChars : Segment → List Char
  | plain text _ => text
  | parameter name _ _ _ => '{' :: name ++ ['}']

/-- The name of a parameter. -/
def names : Segment → List (List Char)
  | plain _ _ => []
  | parameter name _ _ _ => [name]

/-- The names that follow a colon inside the constraint of a parameter. -/
def hiddenNames : Segment → List (List Char)
  | plain _ _ => []
  | parameter _ constraint _ _ => paramsFrom none (constraint.getD [])

end Segment

/-- A path made of segments. -/
def pathChars (segments : List Segment) : List Char :=
  Text.joinFields '/' (segments.map Segment.chars)

/-- Where a segment ends: at the end of the path or before a slash. -/
def EndsSegment (rest : List Char) : Prop := ∀ c ∈ rest.head?, c = '/'

lemma endsSegment_nil : EndsSegment [] := by simp [EndsSegment]

lemma endsSegment_slash (rest : List Char) : EndsSegment ('/' :: rest) := by simp [EndsSegment]

/-- What follows a name and is no part of it. -/
def EndsName (rest : List Char) : Prop := ∀ c ∈ rest.head?, isNameChar c = false

lemma EndsSegment.endsName {rest : List Char} (h : EndsSegment rest) : EndsName rest := by
  intro c hc
  rw [h c hc]
  decide

lemma endsName_bracedConstraint (constraint : Option (List Char)) {rest : List Char}
    (h : EndsSegment rest) : EndsName (Segment.bracedConstraint constraint ++ rest) := by
  cases constraint with
  | none => exact h.endsName
  | some inside =>
    intro c hc
    obtain rfl : '{' = c := by simpa [Segment.bracedConstraint] using hc
    decide

lemma takeWhile_name {name rest : List Char} (hname : IsName name) (h : EndsName rest) :
    (name ++ rest).takeWhile isNameChar = name := by
  have hrest : rest.takeWhile isNameChar = [] := by
    cases rest with
    | nil => rfl
    | cons c rest => simp [h c (by simp)]
  rw [List.takeWhile_append_of_pos hname.2, hrest, List.append_nil]

lemma dropWhile_name {name rest : List Char} (hname : IsName name) (h : EndsName rest) :
    (name ++ rest).dropWhile isNameChar = rest := by
  rw [List.dropWhile_append_of_pos hname.2]
  cases rest with
  | nil => rfl
  | cons c rest => simp [h c (by simp)]

/-- A path without segments, one with a last segment, and one with another segment in front. -/
lemma joinFields_induction {motive : List Segment → Prop} (hnil : motive [])
    (hlast : ∀ segment, motive [segment])
    (hmore : ∀ segment next rest, motive (next :: rest) → motive (segment :: next :: rest))
    (segments : List Segment) : motive segments := by
  induction segments with
  | nil => exact hnil
  | cons segment rest ih =>
    cases rest with
    | nil => exact hlast segment
    | cons next rest => exact hmore segment next rest ih

/-! ## Templates -/

lemma templateOf_append_plain {text : List Char} (h : ':' ∉ text) (rest : List Char) :
    templateOf (text ++ rest) = text ++ templateOf rest := by
  induction text with
  | nil => rfl
  | cons c text ih =>
    rw [List.mem_cons, not_or] at h
    rw [List.cons_append, templateOf, if_neg fun hc => h.1 hc.1.symm, ih h.2, List.cons_append]

lemma afterLastBrace?_append_brace (inside : List Char) :
    afterLastBrace? (inside ++ ['}']) = some [] := by
  induction inside with
  | nil => rfl
  | cons c inside ih => simp only [List.cons_append, afterLastBrace?, ih]

/-- The constraint of a parameter is dropped, whatever braces it holds itself. -/
lemma dropConstraint_append {constraint : Option (List Char)} {rest : List Char}
    (hconstraint : ∀ c ∈ constraint.getD [], c ≠ '/') (h : EndsSegment rest) :
    dropConstraint (Segment.bracedConstraint constraint ++ rest) = rest := by
  cases constraint with
  | none =>
    cases rest with
    | nil => rfl
    | cons c rest =>
      obtain rfl : c = '/' := h c (by simp)
      rfl
  | some inside =>
    have hinside : ∀ c ∈ inside ++ ['}'], (c != '/') = true := by
      intro c hc
      rcases List.mem_append.1 hc with hc | hc
      · simpa using hconstraint c hc
      · rw [List.mem_singleton.1 hc]
        decide
    have htake : rest.takeWhile (· != '/') = [] ∧ rest.dropWhile (· != '/') = rest := by
      cases rest with
      | nil => exact ⟨rfl, rfl⟩
      | cons c rest =>
        obtain rfl : c = '/' := h c (by simp)
        exact ⟨rfl, rfl⟩
    have hsplit : Segment.bracedConstraint (some inside) ++ rest = '{' :: (inside ++ ['}'] ++ rest) := by
      simp [Segment.bracedConstraint]
    rw [hsplit, dropConstraint, List.takeWhile_append_of_pos hinside, htake.1, List.append_nil,
      afterLastBrace?_append_brace, List.dropWhile_append_of_pos hinside, htake.2]
    rfl

lemma templateOf_append_chars (segment : Segment) {rest : List Char} (h : EndsSegment rest) :
    templateOf (segment.chars ++ rest) = segment.templateChars ++ templateOf rest := by
  cases segment with
  | plain text htext =>
    refine templateOf_append_plain (fun hc => ?_) rest
    exact htext ':' hc (by simp)
  | parameter name constraint hname hconstraint =>
    have hends := endsName_bracedConstraint constraint h
    have hsplit : (Segment.parameter name constraint hname hconstraint).chars ++ rest =
        ':' :: (name ++ (Segment.bracedConstraint constraint ++ rest)) := by
      simp [Segment.chars]
    rw [hsplit, templateOf, takeWhile_name hname hends, if_pos ⟨rfl, hname.1⟩,
      dropWhile_name hname hends, dropConstraint_append hconstraint h]
    simp [Segment.templateChars]

lemma templateOf_slash (rest : List Char) : templateOf ('/' :: rest) = '/' :: templateOf rest := by
  rw [templateOf, if_neg fun h => absurd h.1 (by decide)]

/-- The template of a path made of segments. -/
theorem templateOf_pathChars (segments : List Segment) :
    templateOf (pathChars segments) = Text.joinFields '/' (segments.map Segment.templateChars) := by
  induction segments using joinFields_induction with
  | hnil => rw [pathChars, List.map_nil, Text.joinFields, templateOf, List.map_nil, Text.joinFields]
  | hlast segment =>
    have hsegment := templateOf_append_chars segment endsSegment_nil
    rw [List.append_nil, templateOf, List.append_nil] at hsegment
    exact hsegment
  | hmore segment next rest ih =>
    have hsegment := templateOf_append_chars segment (endsSegment_slash (pathChars (next :: rest)))
    rw [templateOf_slash, ih] at hsegment
    exact hsegment

/-! ## Names in braces -/

/-- A name stands in braces in a text. -/
def BracedIn (name cs : List Char) : Prop :=
  ∃ before after, cs = before ++ '{' :: (name ++ '}' :: after)

section

variable {name : List Char}

lemma bracedIn_cons_iff {c : Char} (h : c ≠ '{') (cs : List Char) :
    BracedIn name (c :: cs) ↔ BracedIn name cs := by
  constructor
  · rintro ⟨before, after, heq⟩
    cases before with
    | nil => exact absurd (List.cons.inj heq).1 h
    | cons b before => exact ⟨before, after, (List.cons.inj heq).2⟩
  · rintro ⟨before, after, rfl⟩
    exact ⟨c :: before, after, rfl⟩

lemma bracedIn_append_iff {text : List Char} (h : '{' ∉ text) (cs : List Char) :
    BracedIn name (text ++ cs) ↔ BracedIn name cs := by
  induction text with
  | nil => rfl
  | cons c text ih =>
    rw [List.mem_cons, not_or] at h
    rw [List.cons_append, bracedIn_cons_iff (fun hc => h.1 hc.symm), ih h.2]

lemma not_mem_of_isName {c : Char} (hname : IsName name) (hc : isNameChar c = false) : c ∉ name :=
  fun hmem => by simp [hname.2 c hmem] at hc

/-- Behind a parameter in braces there are its name and those that come later. -/
lemma bracedIn_parameter_iff {own : List Char} (hname : IsName name) (hown : IsName own)
    (cs : List Char) : BracedIn name ('{' :: own ++ '}' :: cs) ↔ name = own ∨ BracedIn name cs := by
  have hlater : BracedIn name (own ++ '}' :: cs) ↔ BracedIn name cs := by
    rw [bracedIn_append_iff (not_mem_of_isName hown (by decide)), bracedIn_cons_iff (by decide)]
  constructor
  · rintro ⟨before, after, heq⟩
    cases before with
    | nil =>
      -- Both names end at the first closing brace.
      left
      have hends (rest : List Char) : EndsName ('}' :: rest) := by
        intro c hc
        obtain rfl : '}' = c := by simpa using hc
        decide
      have hboth : own ++ '}' :: cs = name ++ '}' :: after := (List.cons.inj heq).2
      rw [← takeWhile_name hname (hends after), ← hboth, takeWhile_name hown (hends cs)]
    | cons b before => exact .inr (hlater.1 ⟨before, after, (List.cons.inj heq).2⟩)
  · rintro (rfl | h)
    · exact ⟨[], cs, rfl⟩
    · obtain ⟨before, after, heq⟩ := hlater.2 h
      exact ⟨'{' :: before, after, by rw [List.cons_append, heq, List.cons_append]⟩

lemma bracedIn_templateChars_iff (hname : IsName name) (segment : Segment) (cs : List Char) :
    BracedIn name (segment.templateChars ++ cs) ↔ name ∈ segment.names ∨ BracedIn name cs := by
  cases segment with
  | plain text h =>
    rw [Segment.templateChars, bracedIn_append_iff fun hc => h '{' hc (by simp)]
    simp [Segment.names]
  | parameter own constraint hown h =>
    have hsplit : (Segment.parameter own constraint hown h).templateChars ++ cs =
        '{' :: own ++ '}' :: cs := by simp [Segment.templateChars]
    rw [hsplit, bracedIn_parameter_iff hname hown]
    simp [Segment.names]

/-- The names that stand in braces in the template of a path are those of its parameters. -/
theorem bracedIn_template_iff (hname : IsName name) (segments : List Segment) :
    BracedIn name (templateOf (pathChars segments)) ↔ name ∈ segments.flatMap Segment.names := by
  have hnone : ¬BracedIn name [] := by
    rintro ⟨before, after, heq⟩
    simp at heq
  rw [templateOf_pathChars]
  induction segments using joinFields_induction with
  | hnil => simpa [Text.joinFields] using hnone
  | hlast segment =>
    have hsegment := bracedIn_templateChars_iff hname segment []
    rw [List.append_nil] at hsegment
    simpa [Text.joinFields, hnone] using hsegment
  | hmore segment next rest ih =>
    have hsegment := bracedIn_templateChars_iff hname segment
      ('/' :: Text.joinFields '/' ((next :: rest).map Segment.templateChars))
    rw [bracedIn_cons_iff (by decide)] at hsegment
    rw [List.flatMap_cons, List.mem_append]
    exact hsegment.trans (or_congr_right ih)

end

/-! ## Parameters -/

lemma paramsFrom_append_plain {text : List Char} (h : ':' ∉ text) (rest : List Char) :
    paramsFrom none (text ++ rest) = paramsFrom none rest := by
  induction text with
  | nil => rfl
  | cons c text ih =>
    rw [List.mem_cons, not_or] at h
    have hc : (c == ':') = false := by simpa using fun hc => h.1 hc.symm
    rw [List.cons_append, paramsFrom, hc]
    exact ih h.2

/-- A name is read to its end. -/
lemma paramsFrom_name (read : List Char) {name rest : List Char} (hname : ∀ c ∈ name, isNameChar c = true)
    (hne : read ≠ [] ∨ name ≠ []) (h : EndsName rest) :
    paramsFrom (some read) (name ++ rest) = (read.reverse ++ name) :: paramsFrom none rest := by
  induction name generalizing read with
  | nil =>
    have hread : read ≠ [] := by simpa using hne
    obtain ⟨c, cs, rfl⟩ := List.exists_cons_of_ne_nil hread
    cases rest with
    | nil => simp [paramsFrom]
    | cons d rest =>
      have hd : isNameChar d = false := h d (by simp)
      simp [paramsFrom, hd]
  | cons c name ih =>
    have hc : isNameChar c = true := hname c List.mem_cons_self
    have hrest := ih (c :: read) (fun d hd => hname d (List.mem_cons_of_mem _ hd)) (.inl (by simp))
    rw [List.cons_append, paramsFrom, if_pos hc, hrest]
    simp

/-- A character that is neither a colon nor part of a name ends what is being read. -/
lemma paramsFrom_append_end {d : Char} (hname : isNameChar d = false) (hcolon : d ≠ ':')
    (read : Option (List Char)) (cs rest : List Char) :
    paramsFrom read (cs ++ d :: rest) = paramsFrom read cs ++ paramsFrom none rest := by
  have hd : (d == ':') = false := by simpa using hcolon
  induction cs generalizing read with
  | nil =>
    match read with
    | none => simp [paramsFrom, hd]
    | some [] => simp [paramsFrom, hd, hname]
    | some (c :: name) => simp [paramsFrom, hd, hname]
  | cons c cs ih =>
    cases read with
    | none =>
      simp only [List.cons_append, paramsFrom]
      split
      · exact ih _
      · exact ih _
    | some name =>
      simp only [List.cons_append, paramsFrom]
      split
      · exact ih _
      · by_cases hempty : name = []
        · simp only [hempty, if_true]
          split
          · exact ih _
          · exact ih _
        · simp only [hempty, if_false, List.cons_append]
          split
          · rw [ih]
          · rw [ih]

lemma paramsFrom_append_chars (segment : Segment) {rest : List Char} (h : EndsSegment rest) :
    paramsFrom none (segment.chars ++ rest) =
      segment.names ++ segment.hiddenNames ++ paramsFrom none rest := by
  cases segment with
  | plain text htext => exact paramsFrom_append_plain (fun hc => htext ':' hc (by simp)) rest
  | parameter name constraint hname hconstraint =>
    have hsplit : (Segment.parameter name constraint hname hconstraint).chars ++ rest =
        ':' :: (name ++ (Segment.bracedConstraint constraint ++ rest)) := by
      simp [Segment.chars]
    have hread := paramsFrom_name [] hname.2 (.inr hname.1) (endsName_bracedConstraint constraint h)
    have hinside : paramsFrom none (Segment.bracedConstraint constraint ++ rest) =
        paramsFrom none (constraint.getD []) ++ paramsFrom none rest := by
      cases constraint with
      | none => rfl
      | some inside =>
        have hbraced : Segment.bracedConstraint (some inside) ++ rest =
            '{' :: (inside ++ '}' :: rest) := by simp [Segment.bracedConstraint]
        have hopen : paramsFrom none ('{' :: (inside ++ '}' :: rest)) =
            paramsFrom none (inside ++ '}' :: rest) := rfl
        rw [hbraced, hopen, paramsFrom_append_end (by decide) (by decide)]
        rfl
    have hcolon : paramsFrom none (':' :: (name ++ (Segment.bracedConstraint constraint ++ rest))) =
        paramsFrom (some []) (name ++ (Segment.bracedConstraint constraint ++ rest)) := rfl
    rw [hsplit, hcolon, hread, hinside]
    rfl

/-- The names that are read off a path made of segments: those of its parameters, each with those
inside its constraint behind it. -/
theorem paramsFrom_pathChars (segments : List Segment) : paramsFrom none (pathChars segments) =
    segments.flatMap fun s => s.names ++ s.hiddenNames := by
  induction segments using joinFields_induction with
  | hnil => rfl
  | hlast segment =>
    have hsegment := paramsFrom_append_chars segment endsSegment_nil
    simpa [pathChars, Text.joinFields, paramsFrom] using hsegment
  | hmore segment next rest ih =>
    have hsegment := paramsFrom_append_chars segment (endsSegment_slash (pathChars (next :: rest)))
    have hslash : paramsFrom none ('/' :: pathChars (next :: rest)) =
        paramsFrom none (pathChars (next :: rest)) := rfl
    rw [hslash, ih] at hsegment
    rw [List.flatMap_cons]
    exact hsegment

/-- Whatever is read off a path is a name. -/
lemma isName_of_mem_paramsFrom {read : Option (List Char)} {cs name : List Char}
    (hread : ∀ n ∈ read, ∀ c ∈ n, isNameChar c = true) (h : name ∈ paramsFrom read cs) :
    IsName name := by
  have hdone (n : List Char) (hne : n ≠ []) (hn : ∀ c ∈ n, isNameChar c = true) :
      IsName n.reverse := ⟨by simpa using hne, fun c hc => hn c (List.mem_reverse.1 hc)⟩
  induction cs generalizing read with
  | nil =>
    match read with
    | none => cases h
    | some [] => cases h
    | some (c :: n) =>
      obtain rfl : name = (c :: n).reverse := by simpa [paramsFrom] using h
      exact hdone _ (by simp) (hread _ rfl)
  | cons c cs ih =>
    have hnone (h : name ∈ paramsFrom none cs) : IsName name := ih (by simp) h
    have hempty (h : name ∈ paramsFrom (some []) cs) : IsName name := ih (by simp) h
    have hnext (h : name ∈ if (c == ':') = true then paramsFrom (some []) cs else paramsFrom none cs) :
        IsName name := by
      split at h
      · exact hempty h
      · exact hnone h
    cases read with
    | none => exact hnext h
    | some n =>
      simp only [paramsFrom] at h
      split at h
      · rename_i hc
        refine ih (fun m hm => ?_) h
        obtain rfl : c :: n = m := by simpa using hm
        intro d hd
        rcases List.mem_cons.1 hd with rfl | hd
        · exact hc
        · exact hread n rfl d hd
      · split at h
        · exact hnext h
        · rename_i hne
          rcases List.mem_cons.1 h with rfl | h
          · exact hdone n hne (hread n rfl)
          · exact hnext h

end RouteScribe.Route
