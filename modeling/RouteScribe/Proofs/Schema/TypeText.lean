import Mathlib.Data.List.Basic
import Mathlib.Tactic
import RouteScribe.Schema.TypeText
import RouteScribe.Source.Lexeme

/-!
# Types read back from their texts

The reading of a type's text tries one shape after the other: words that stand for primitive types,
brackets at the end, `Array`, `Record`, braces.  Here is what it makes of texts that are put together
in the way types are displayed: `cs` with brackets is a list of what `cs` is (`view_list`), and so on
for maps (`view_record`) and for objects whose members hold no separators (`view_object`).  No text of
one shape is taken for one of a shape that is tried earlier, because the shapes that take a text at
its end (brackets, `>`, a brace) differ in its last character, and a name has none of these.

`Reads cs s` says that the text `cs` is read as the schema `s` however many levels of description there
are, as soon as there is one for each character and one more; `ofTypeText?_of_reads` has just so many.
-/

namespace RouteScribe.Schema.TypeText

open Text (isBlank trim trimLeft dropRightWhile isWordChar)

/-- What holds of all characters of a text is decided along the text. -/
scoped instance (priority := high) decidableForallMem {P : Char → Prop} [DecidablePred P]
    (cs : List Char) : Decidable (∀ c ∈ cs, P c) :=
  List.decidableBAll P cs

variable {n : Nat} {cs inner : List Char} {c : Char} {s : Schema} {name : String}

/-! ## Texts without blanks around them -/

/-- A text that is not empty, and neither starts nor ends with a blank. -/
structure IsTrimmed (cs : List Char) : Prop where
  head : ∃ c rest, cs = c :: rest ∧ isBlank c = false
  last : ∃ front c, cs = front ++ [c] ∧ isBlank c = false

lemma IsTrimmed.ne_nil (h : IsTrimmed cs) : cs ≠ [] := by
  obtain ⟨c, rest, rfl, -⟩ := h.head
  exact List.cons_ne_nil c rest

/-- A text in which no character is a blank. -/
lemma isTrimmed_of_forall (hne : cs ≠ []) (h : ∀ c ∈ cs, isBlank c = false) : IsTrimmed cs where
  head := by
    obtain ⟨c, rest, rfl⟩ := List.exists_cons_of_ne_nil hne
    exact ⟨c, rest, rfl, h c List.mem_cons_self⟩
  last := ⟨cs.dropLast, cs.getLast hne, (List.dropLast_append_getLast hne).symm,
    h _ (List.getLast_mem hne)⟩

lemma isTrimmed_cons_concat {first last : Char} (cs : List Char) (hfirst : isBlank first = false)
    (hlast : isBlank last = false) : IsTrimmed (first :: cs ++ [last]) where
  head := ⟨first, cs ++ [last], rfl, hfirst⟩
  last := ⟨first :: cs, last, rfl, hlast⟩

/-- The blanks around a text are dropped, and no more. -/
lemma trim_blanks (h : IsTrimmed cs) (before after : List Char)
    (hbefore : ∀ c ∈ before, isBlank c = true) (hafter : ∀ c ∈ after, isBlank c = true) :
    trim (before ++ cs ++ after) = cs := by
  obtain ⟨c, rest, hhead, hc⟩ := h.head
  obtain ⟨front, d, hlast, hd⟩ := h.last
  have hleft : trimLeft (before ++ cs ++ after) = cs ++ after := by
    rw [trimLeft, List.append_assoc, List.dropWhile_append_of_pos hbefore, hhead, List.cons_append,
      List.dropWhile_cons_of_neg (by simp [hc])]
  have hreverse : ∀ c ∈ after.reverse, isBlank c = true := fun c hc =>
    hafter c (List.mem_reverse.1 hc)
  rw [trim, hleft, dropRightWhile, List.reverse_append, List.dropWhile_append_of_pos hreverse, hlast,
    List.reverse_append, List.reverse_singleton, List.singleton_append,
    List.dropWhile_cons_of_neg (by simp [hd]), List.reverse_cons, List.reverse_reverse]

lemma IsTrimmed.trim (h : IsTrimmed cs) : trim cs = cs := by
  simpa using trim_blanks h [] [] (by simp) (by simp)

/-! ## Fixed starts and ends -/

lemma after?_append (start : String) (cs : List Char) :
    after? start (start.toList ++ cs) = some cs := by
  simp [after?]

lemma after?_of_head_ne {start : String} {d : Char} {rest : List Char}
    (hstart : start.toList = d :: rest) (hne : c ≠ d) : after? start (c :: cs) = none := by
  simp [after?, hstart, hne.symm]

lemma before?_append (ending : String) (cs : List Char) :
    before? ending (cs ++ ending.toList) = some cs := by
  simp [before?]

lemma before?_of_last_ne {ending : String} {d : Char} (hending : ending.toList.getLast? = some d)
    (hne : c ≠ d) : before? ending (cs ++ [c]) = none := by
  rw [before?, if_neg]
  rw [List.isSuffixOf_iff_suffix]
  rintro ⟨start, hstart⟩
  have hlast : some d = some c := by
    rw [← hending, ← List.getLast?_concat (l := cs), ← hstart, List.getLast?_append, hending]
    rfl
  exact hne (Option.some.inj hlast).symm

lemma before?_of_not_mem {ending : String} (hending : c ∈ ending.toList) (h : c ∉ cs) :
    before? ending cs = none := by
  rw [before?, if_neg]
  intro hsuffix
  exact h ((List.isSuffixOf_iff_suffix.1 hsuffix).subset hending)

lemma after?_of_not_mem {start : String} (hstart : c ∈ start.toList) (h : c ∉ cs) :
    after? start cs = none := by
  rw [after?, if_neg]
  intro hprefix
  exact h ((List.isPrefixOf_iff_prefix.1 hprefix).subset hstart)

/-! ## One level of a type -/

/-- The words that are read as primitive types. -/
def primitiveWords : List String :=
  ["string", "String", "number", "Number", "boolean", "Boolean", "null", "undefined", "void"]

/-- A text that is no such word is taken apart. -/
lemma view_of_not_mem (h : String.ofList cs ∉ primitiveWords) :
    view cs = match element? cs with
      | some inner => .array inner
      | none =>
        match recordValue? cs with
        | some value => .map value
        | none =>
          match members? cs with
          | some ms => .object none ms
          | none => .other (String.ofList cs) := by
  simp only [primitiveWords, List.mem_cons, List.not_mem_nil, or_false, not_or] at h
  obtain ⟨h₁, h₂, h₃, h₄, h₅, h₆, h₇, h₈, h₉⟩ := h
  exact (if_neg (not_or.2 ⟨h₁, h₂⟩)).trans <| (if_neg (not_or.2 ⟨h₃, h₄⟩)).trans <|
    (if_neg (not_or.2 ⟨h₅, h₆⟩)).trans <| (if_neg h₇).trans <| if_neg (not_or.2 ⟨h₈, h₉⟩)

/-- The words consist of letters. -/
lemma not_mem_primitiveWords (hc : c ∈ cs) (h : c.isAlpha = false) :
    String.ofList cs ∉ primitiveWords := by
  have hletters : ∀ w ∈ primitiveWords, ∀ d ∈ w.toList, d.isAlpha = true := by decide
  intro hmem
  have halpha := hletters _ hmem c (by rwa [String.toList_ofList])
  rw [h] at halpha
  cases halpha

lemma element?_eq_none (hbrackets : before? "[]" cs = none)
    (harray : (after? "Array<" cs).bind (before? ">") = none) : element? cs = none := by
  simp only [element?, hbrackets, harray, Option.bind_none]

/-- Brackets behind a text make it a list. -/
lemma view_list (h : IsTrimmed cs) : view (cs ++ "[]".toList) = .array cs := by
  have helement : element? (cs ++ "[]".toList) = some cs := by
    simp only [element?]
    rw [before?_append, Option.bind_some, h.trim, if_neg h.ne_nil]
  rw [view_of_not_mem (not_mem_primitiveWords (c := ']') (List.mem_append_right _ (by decide)) rfl),
    helement]

/-- A text in the place of the values of a record. -/
lemma view_record (h : IsTrimmed cs) :
    view ("Record<string, ".toList ++ (cs ++ ">".toList)) = .map cs := by
  have helement : element? ("Record<string, ".toList ++ (cs ++ ">".toList)) = none := by
    refine element?_eq_none ?_ ?_
    · rw [← List.append_assoc]
      exact before?_of_last_ne (c := '>') rfl (by decide)
    · have hstart : after? "Array<" ('R' :: ("ecord<string, ".toList ++ (cs ++ ">".toList))) = none :=
        after?_of_head_ne rfl (by decide)
      exact congrArg (·.bind (before? ">")) hstart
  have hvalue : recordValue? ("Record<string, ".toList ++ (cs ++ ">".toList)) = some cs := by
    have hrecord : after? "Record<" ("Record<string, ".toList ++ (cs ++ ">".toList)) =
        some ("string, ".toList ++ (cs ++ ">".toList)) := after?_append "Record<" _
    have hstring : after? "string" (trimLeft ("string, ".toList ++ (cs ++ ">".toList))) =
        some (", ".toList ++ (cs ++ ">".toList)) := after?_append "string" _
    have hcomma : after? "," (trimLeft (", ".toList ++ (cs ++ ">".toList))) =
        some (" ".toList ++ cs ++ ">".toList) := after?_append "," _
    have htrim : trim (" ".toList ++ cs) = cs := by
      simpa using trim_blanks h [' '] [] (by decide) (by simp)
    simp only [recordValue?, hrecord, hstring, hcomma, before?_append, Option.bind_eq_bind,
      Option.bind_some]
    rw [if_neg (by simp), htrim]
  rw [view_of_not_mem (not_mem_primitiveWords (c := '>') (by simp) rfl), helement, hvalue]

/-! ## Members of objects -/

/-- Blanks by their code points. -/
lemma mem_of_isBlank (h : isBlank c = true) :
    c.toNat ∈ List.range' 9 5 ++ List.range' 0x1c 5 ++ List.range' 0x2000 11 ++
      [0x85, 0xa0, 0x1680, 0x2028, 0x2029, 0x202f, 0x205f, 0x3000] := by
  simp only [isBlank, Bool.or_eq_true, Bool.and_eq_true, decide_eq_true_eq, beq_iff_eq] at h
  simp only [List.mem_append, List.mem_range'_1, List.mem_cons, List.not_mem_nil, or_false]
  omega

set_option maxRecDepth 10000 in
lemma isBlank_of_isWordChar (h : isWordChar c = true) : isBlank c = false := by
  -- Each range of characters of words lies between two neighbouring blanks, or behind all of them.
  have hbetween : ∀ r ∈ Text.wordRanges, 0x3000 < r.1 ∨ 0x1680 < r.1 ∧ r.2 < 0x2000 ∨
      0xa0 < r.1 ∧ r.2 < 0x1680 ∨ 0x20 < r.1 ∧ r.2 < 0x85 ∨ 0x205f < r.1 ∧ r.2 < 0x3000 ∨
      0x202f < r.1 ∧ r.2 < 0x205f := by
    decide +kernel
  rw [Bool.eq_false_iff]
  intro hblank
  obtain ⟨r, hr, hc⟩ := List.any_eq_true.1 h
  have hmem := mem_of_isBlank hblank
  simp only [List.mem_append, List.mem_range'_1, List.mem_cons, List.not_mem_nil, or_false] at hmem
  simp only [Bool.and_eq_true, decide_eq_true_eq] at hc
  have := hbetween r hr
  omega

/-- A text in which no part ends. -/
def HasNoSeparator (cs : List Char) : Prop := ∀ c ∈ cs, c ≠ ';' ∧ c ≠ ','

/-- A part that is being read goes on to the next separator. -/
lemma parts_append (h : HasNoSeparator cs) (part rest : List Char) (hne : part.reverse ++ cs ≠ []) :
    parts part (cs ++ ';' :: rest) = (part.reverse ++ cs) :: parts.partsAfter rest := by
  induction cs generalizing part with
  | nil =>
    have hpart : part ≠ [] := by simpa using hne
    simp [parts, hpart]
  | cons c cs ih =>
    have hc := h c List.mem_cons_self
    have hrest := ih (fun d hd => h d (List.mem_cons_of_mem _ hd)) (c :: part) (by simp)
    simpa [parts, hc.1, hc.2] using hrest

/-- Members between blanks, each with a separator behind it. -/
def spaced (members : List (List Char)) : List Char := members.flatMap fun m => ' ' :: (m ++ [';'])

lemma spaced_cons (m : List Char) (rest : List (List Char)) :
    spaced (m :: rest) = ' ' :: (m ++ ';' :: spaced rest) := by
  simp [spaced]

lemma partsAfter_spaced {members : List (List Char)}
    (h : ∀ m ∈ members, IsTrimmed m ∧ HasNoSeparator m) : parts.partsAfter (spaced members) = members := by
  induction members with
  | nil => rfl
  | cons m rest ih =>
    obtain ⟨⟨⟨c, cs, rfl, hblank⟩, -⟩, hseparators⟩ := h m List.mem_cons_self
    have hc := hseparators c List.mem_cons_self
    have hpart : parts [c] (cs ++ ';' :: spaced rest) = (c :: cs) :: parts.partsAfter (spaced rest) :=
      parts_append (fun d hd => hseparators d (List.mem_cons_of_mem _ hd)) [c] _ (by simp)
    rw [spaced_cons, parts.partsAfter, if_pos (show isBlank ' ' = true from rfl), List.cons_append, parts.partsAfter,
      if_neg (by simp [hblank]), if_neg (by simp [hc]), hpart,
      ih fun m hm => h m (List.mem_cons_of_mem _ hm)]

/-- The members between braces are told apart. -/
lemma parts_trim_spaced {members : List (List Char)}
    (h : ∀ m ∈ members, IsTrimmed m ∧ HasNoSeparator m) :
    parts [] (trim (spaced members ++ [' '])) = members := by
  rcases members with - | ⟨m, rest⟩
  · rfl
  obtain ⟨htrimmed, hseparators⟩ := h m List.mem_cons_self
  have hrest : ∀ m ∈ rest, IsTrimmed m ∧ HasNoSeparator m := fun m hm =>
    h m (List.mem_cons_of_mem _ hm)
  have hlast : ∃ front, spaced (m :: rest) = front ++ [';'] := by
    obtain ⟨init, m', heq⟩ := List.eq_nil_or_concat (m :: rest) |>.resolve_left (by simp)
    exact ⟨spaced init ++ ' ' :: m', by rw [heq]; simp [spaced]⟩
  have htext : IsTrimmed (m ++ ';' :: spaced rest) := by
    constructor
    · obtain ⟨c, cs, rfl, hc⟩ := htrimmed.head
      exact ⟨c, cs ++ ';' :: spaced rest, rfl, hc⟩
    · obtain ⟨front, hfront⟩ := hlast
      rw [spaced_cons] at hfront
      rcases front with - | ⟨b, front⟩
      · cases hfront
      · exact ⟨front, ';', (List.cons.inj hfront).2, rfl⟩
  have htrim : trim (spaced (m :: rest) ++ [' ']) = m ++ ';' :: spaced rest := by
    simpa [spaced_cons] using trim_blanks htext [' '] [' '] (by decide) (by decide)
  rw [htrim, parts_append hseparators [] _ (by simpa using htrimmed.ne_nil), partsAfter_spaced hrest,
    List.reverse_nil, List.nil_append]

/-- A name that members of objects can have: one of word characters. -/
def IsMemberName (name : String) : Prop := name ≠ "" ∧ ∀ c ∈ name.toList, isWordChar c = true

/-- A member as it is displayed, without the separator behind it. -/
def memberText (name : String) (cs : List Char) : List Char := name.toList ++ ": ".toList ++ cs

lemma member?_memberText (hname : IsMemberName name) (h : IsTrimmed cs) :
    member? (memberText name cs) = some ⟨name, false, cs⟩ := by
  have hcolon : isWordChar ':' = false := by decide +kernel
  have htake : (memberText name cs).takeWhile isWordChar = name.toList := by
    rw [memberText, List.append_assoc, List.takeWhile_append_of_pos hname.2]
    simp [hcolon]
  have hdrop : (memberText name cs).dropWhile isWordChar = ':' :: ' ' :: cs := by
    rw [memberText, List.append_assoc, List.dropWhile_append_of_pos hname.2]
    simp [hcolon]
  have htrim : trim (' ' :: cs) = cs := by
    simpa using trim_blanks h [' '] [] (by decide) (by simp)
  have hne : name.toList ≠ [] := by simpa using hname.1
  simp [member?, htake, hdrop, htrim, hne]

lemma isTrimmed_memberText (hname : IsMemberName name) (h : IsTrimmed cs) :
    IsTrimmed (memberText name cs) where
  head := by
    obtain ⟨c, rest, heq⟩ := List.exists_cons_of_ne_nil (l := name.toList) (by simpa using hname.1)
    have hc : isWordChar c = true := hname.2 c (by rw [heq]; exact List.mem_cons_self)
    exact ⟨c, rest ++ (": ".toList ++ cs), by rw [memberText, heq, List.append_assoc]; rfl,
      isBlank_of_isWordChar hc⟩
  last := by
    obtain ⟨front, c, rfl, hc⟩ := h.last
    exact ⟨name.toList ++ (": ".toList ++ front), c, by simp [memberText], hc⟩

lemma hasNoSeparator_memberText (hname : IsMemberName name) (h : HasNoSeparator cs) :
    HasNoSeparator (memberText name cs) := by
  have hmarks : isWordChar ';' = false ∧ isWordChar ',' = false := by decide +kernel
  intro c hc
  rw [memberText, List.append_assoc, List.mem_append, List.mem_append] at hc
  rcases hc with hc | hc | hc
  · have hword := hname.2 c hc
    refine ⟨?_, ?_⟩
    · rintro rfl
      rw [hmarks.1] at hword
      cases hword
    · rintro rfl
      rw [hmarks.2] at hword
      cases hword
  · have hboth : ∀ c ∈ ": ".toList, c ≠ ';' ∧ c ≠ ',' := by decide
    exact hboth c hc
  · exact h c hc

/-- Members between braces make an object. -/
lemma view_object (members : List (String × List Char))
    (h : ∀ m ∈ members, IsMemberName m.1 ∧ IsTrimmed m.2 ∧ HasNoSeparator m.2) :
    view ('{' :: (spaced (members.map fun m => memberText m.1 m.2) ++ " \x7d".toList)) =
      .object none (members.map fun m => ⟨m.1, false, m.2⟩) := by
  set inner := spaced (members.map fun m => memberText m.1 m.2) ++ [' '] with hinner
  have htext : '{' :: (spaced (members.map fun m => memberText m.1 m.2) ++ " \x7d".toList) =
      '{' :: inner ++ ['}'] := by
    simp [hinner]
  have helement : element? ('{' :: inner ++ ['}']) = none := by
    refine element?_eq_none (before?_of_last_ne (c := '}') rfl (by decide)) ?_
    rw [List.cons_append, after?_of_head_ne (d := 'A') rfl (by decide), Option.bind_none]
  have hvalue : recordValue? ('{' :: inner ++ ['}']) = none := by
    simp only [recordValue?, List.cons_append, Option.bind_eq_bind]
    rw [after?_of_head_ne (d := 'R') rfl (by decide), Option.bind_none]
  have hmembers : members? ('{' :: inner ++ ['}']) =
      some (members.map fun m => ⟨m.1, false, m.2⟩) := by
    have hopen : after? "\x7b" ('{' :: inner ++ ['}']) = some (inner ++ ['}']) :=
      after?_append "\x7b" _
    have hclose : before? "\x7d" (inner ++ ['}']) = some inner := before?_append "\x7d" _
    have hparts : parts [] (trim inner) = members.map fun m => memberText m.1 m.2 := by
      refine parts_trim_spaced fun text htext => ?_
      obtain ⟨m, hm, rfl⟩ := List.mem_map.1 htext
      obtain ⟨hname, htrimmed, hseparators⟩ := h m hm
      exact ⟨isTrimmed_memberText hname htrimmed, hasNoSeparator_memberText hname hseparators⟩
    rw [members?, hopen, Option.bind_some, hclose, Option.map_some, hparts, List.filterMap_map,
      ← List.filterMap_eq_map]
    congr 1
    refine List.filterMap_congr fun m hm => ?_
    obtain ⟨hname, htrimmed, -⟩ := h m hm
    simp [(isTrimmed_memberText hname htrimmed).trim, member?_memberText hname htrimmed]
  rw [htext, view_of_not_mem (not_mem_primitiveWords (c := '}') (by simp) rfl), helement, hvalue,
    hmembers]

lemma view_emptyObject : view "\x7b\x7d".toList = .object none [] := rfl

/-! ## Names -/

/-- A name of a type that is no word for a primitive type: it holds no blank and none of the marks that
separate types, and does not start with a brace. -/
structure IsTypeName (name : String) : Prop where
  ne_nil : name ≠ ""
  plain : ∀ c ∈ name.toList, isBlank c = false ∧ c ∉ ";,[]<>".toList
  head : name.toList.head? ≠ some '{'
  not_mem : name ∉ primitiveWords

/-- Identifiers other than these words are names of types. -/
lemma isTypeName_of_isWordPart (hne : name ≠ "")
    (h : ∀ c ∈ name.toList, Source.isWordPart c = true) (hnot : name ∉ primitiveWords) :
    IsTypeName name where
  ne_nil := hne
  plain c hc := by
    have hpart := h c hc
    simp only [Source.isWordPart, Bool.and_eq_true, Bool.not_eq_true', decide_eq_true_eq] at hpart
    obtain ⟨⟨hle, hspace⟩, hmark⟩ := hpart
    constructor
    · rw [Bool.eq_false_iff]
      intro hblank
      have hmem := mem_of_isBlank hblank
      simp only [Source.isSpace, Bool.or_eq_false_iff, Bool.and_eq_false_iff, decide_eq_false_iff_not,
        beq_eq_false_iff_ne] at hspace
      simp only [List.mem_append, List.mem_range'_1, List.mem_cons, List.not_mem_nil, or_false] at hmem
      omega
    · intro hmem
      have hmarks : ∀ c ∈ ";,[]<>".toList, Source.isPunctuation c = true := by decide
      rw [hmarks c hmem] at hmark
      cases hmark
  head := by
    intro hhead
    have hpart := h _ (List.mem_of_head? hhead)
    revert hpart
    decide
  not_mem := hnot

namespace IsTypeName

variable (h : IsTypeName name)

include h

lemma isTrimmed : IsTrimmed name.toList :=
  isTrimmed_of_forall (by simpa using h.ne_nil) fun c hc => (h.plain c hc).1

lemma hasNoSeparator : HasNoSeparator name.toList := by
  intro c hc
  have hmarks := (h.plain c hc).2
  constructor
  · rintro rfl
    exact hmarks (by decide)
  · rintro rfl
    exact hmarks (by decide)

/-- A name is known by itself only. -/
lemma view_name : view name.toList = .other name := by
  have hmark (c : Char) (hc : c ∈ ";,[]<>".toList) : c ∉ name.toList := fun hmem =>
    (h.plain c hmem).2 hc
  have helement : element? name.toList = none := by
    refine element?_eq_none (before?_of_not_mem (c := ']') (by decide) (hmark _ (by decide))) ?_
    rw [after?_of_not_mem (c := '<') (by decide) (hmark _ (by decide)), Option.bind_none]
  have hvalue : recordValue? name.toList = none := by
    rw [recordValue?, after?_of_not_mem (c := '<') (by decide) (hmark _ (by decide))]
    rfl
  have hmembers : members? name.toList = none := by
    obtain ⟨c, rest, heq, -⟩ := h.isTrimmed.head
    have hhead := h.head
    rw [heq] at hhead ⊢
    rw [members?, after?_of_head_ne (d := '{') rfl fun hc => hhead (by rw [hc]; rfl)]
    rfl
  have hnot : String.ofList name.toList ∉ primitiveWords := by
    rw [String.ofList_toList]
    exact h.not_mem
  rw [view_of_not_mem hnot, helement, hvalue, hmembers, String.ofList_toList]

end IsTypeName

/-! ## All levels of a type -/

/-- The schema of a type by its text, with so many levels of description. -/
def describe (levels : Nat) (cs : List Char) : Schema :=
  Id.run <| synthesize (fun t => pure (view t)) (fun _ => false) (pure (.unparsed none false))
    levels [] cs

lemma describe_array (h : view cs = .array inner) :
    describe (n + 1) cs = .array (describe n inner) false := by
  simp only [describe, synthesize, describeWith, h]
  rfl

lemma describe_map (h : view cs = .map inner) :
    describe (n + 1) cs = .map (describe n inner) false := by
  simp only [describe, synthesize, describeWith, h]
  rfl

lemma describe_object {members : List (Member (List Char))} (h : view cs = .object none members) :
    describe (n + 1) cs =
      ofProperties (members.map fun m => (m.name, m.optional, describe n m.type)) := by
  simp only [describe, synthesize, describeWith, h]
  change Id.run ((members.mapM fun m => pure (m.name, m.optional, describe n m.type)) >>=
    fun properties => pure (ofProperties properties)) = _
  rw [List.mapM_pure]
  rfl

lemma describe_primitive {kind : PrimitiveKind} (h : view cs = .primitive kind) :
    describe (n + 1) cs = .primitive kind none false := by
  simp only [describe, synthesize, describeWith, h]
  rfl

lemma describe_undefined (h : view cs = .undefined) :
    describe (n + 1) cs = .unparsed none true := by
  simp only [describe, synthesize, describeWith, h]
  rfl

lemma describe_other {text : String} (h : view cs = .other text) :
    describe (n + 1) cs = .unparsed (some ("Unparsed type: " ++ text)) false := by
  simp only [describe, synthesize, describeWith, h]
  rfl

/-- A text that is read as a schema, with any number of levels from one for each character and one
more on. -/
structure Reads (text : String) (s : Schema) : Prop where
  isTrimmed : IsTrimmed text.toList
  describe_eq : ∀ n, text.toList.length < n → describe n text.toList = s

/-- What is read with so many levels is what the text of a type gives. -/
lemma Reads.ofTypeText? {text : String} (h : Reads text s) : ofTypeText? text = some s := by
  rw [← h.describe_eq (text.toList.length + 1) (Nat.lt_succ_self _), Schema.ofTypeText?,
    h.isTrimmed.trim, if_neg h.isTrimmed.ne_nil]
  rfl

lemma reads_of_view {text : String} (h : IsTrimmed text.toList)
    (hs : ∀ n, describe (n + 1) text.toList = s) : Reads text s where
  isTrimmed := h
  describe_eq n hn := by
    obtain ⟨n, rfl⟩ : ∃ m, n = m + 1 := ⟨n - 1, by omega⟩
    exact hs n

lemma reads_name (h : IsTypeName name) :
    Reads name (.unparsed (some ("Unparsed type: " ++ name)) false) :=
  reads_of_view h.isTrimmed fun _ => describe_other h.view_name

lemma Reads.list {text : String} (h : Reads text s) : Reads (text ++ "[]") (.array s false) where
  isTrimmed := by
    obtain ⟨c, rest, heq, hc⟩ := h.isTrimmed.head
    have htext : (text ++ "[]").toList = c :: (rest ++ ['[']) ++ [']'] := by
      rw [String.toList_append, heq]
      simp
    rw [htext]
    exact isTrimmed_cons_concat _ hc rfl
  describe_eq n hn := by
    rw [String.toList_append] at hn ⊢
    obtain ⟨n, rfl⟩ : ∃ m, n = m + 1 := ⟨n - 1, by omega⟩
    have hlt : text.toList.length < n := by
      simp only [List.length_append, String.reduceToList, List.length_cons] at hn
      omega
    rw [describe_array (view_list h.isTrimmed), h.describe_eq n hlt]

lemma Reads.record {text : String} (h : Reads text s) :
    Reads ("Record<string, " ++ text ++ ">") (.map s false) := by
  have htext : ("Record<string, " ++ text ++ ">").toList =
      "Record<string, ".toList ++ (text.toList ++ ">".toList) := by
    simp only [String.toList_append, List.append_assoc]
  constructor
  · rw [htext, ← List.append_assoc]
    exact isTrimmed_cons_concat ("ecord<string, ".toList ++ text.toList) rfl rfl
  · intro n hn
    rw [htext] at hn ⊢
    obtain ⟨n, rfl⟩ : ∃ m, n = m + 1 := ⟨n - 1, by omega⟩
    have hlt : text.toList.length < n := by
      simp only [List.length_append, String.reduceToList, List.length_cons] at hn
      omega
    rw [describe_map (view_record h.isTrimmed), h.describe_eq n hlt]

/-- How an object is displayed whose members have these names and texts, none of them optional. -/
def objectText (members : List (String × String)) : String :=
  if members.isEmpty then "\x7b\x7d"
  else "\x7b " ++ " ".intercalate (members.map fun m => m.1 ++ ": " ++ m.2 ++ ";") ++ " \x7d"

lemma cons_intercalate {texts : List (List Char)} (h : texts ≠ []) :
    ' ' :: [' '].intercalate texts = texts.flatMap (' ' :: ·) := by
  induction texts with
  | nil => exact absurd rfl h
  | cons t rest ih =>
    rcases rest with - | ⟨t', rest⟩
    · simp
    · rw [List.flatMap_cons, ← ih (by simp)]
      simp [List.intercalate]

lemma toList_objectText (members : List (String × String)) (h : members ≠ []) :
    (objectText members).toList = '{' ::
      (spaced (members.map fun m => memberText m.1 m.2.toList) ++ " \x7d".toList) := by
  have htexts : (members.map fun m => m.1 ++ ": " ++ m.2 ++ ";").map String.toList =
      members.map fun m => memberText m.1 m.2.toList ++ [';'] := by
    simp [memberText]
  have hspaced : ' ' :: [' '].intercalate (members.map fun m => memberText m.1 m.2.toList ++ [';']) =
      spaced (members.map fun m => memberText m.1 m.2.toList) := by
    rw [cons_intercalate (by simpa using h), spaced, List.flatMap_map, List.flatMap_map]
  rw [objectText, if_neg (by simpa using h), String.toList_append, String.toList_append,
    String.toList_intercalate, htexts, ← hspaced]
  rfl

lemma length_le_spaced {members : List (List Char)} {m : List Char} (h : m ∈ members) :
    m.length ≤ (spaced members).length := by
  rw [spaced, List.length_flatMap]
  have hmember : m.length ≤ (' ' :: (m ++ [';'])).length := by
    simp only [List.length_cons, List.length_append]
    omega
  exact hmember.trans (List.single_le_sum (fun _ _ => Nat.zero_le _) _ (List.mem_map_of_mem h))

/-- Each member is read from a part of its own. -/
lemma reads_object (members : List (String × String × Schema))
    (h : ∀ m ∈ members, IsMemberName m.1 ∧ Reads m.2.1 m.2.2 ∧ HasNoSeparator m.2.1.toList) :
    Reads (objectText (members.map fun m => (m.1, m.2.1)))
      (ofProperties (members.map fun m => (m.1, false, m.2.2))) := by
  by_cases hnil : members = []
  · subst hnil
    exact reads_of_view (isTrimmed_cons_concat [] rfl rfl) fun _ => describe_object view_emptyObject
  · have htext := toList_objectText (members.map fun m => (m.1, m.2.1)) (by simpa using hnil)
    have hview := view_object (members.map fun m => (m.1, m.2.1.toList)) fun m hm => by
      obtain ⟨m', hm', rfl⟩ := List.mem_map.1 hm
      exact ⟨(h m' hm').1, (h m' hm').2.1.isTrimmed, (h m' hm').2.2⟩
    simp only [List.map_map, Function.comp_def] at htext hview
    constructor
    · rw [htext]
      have hends : IsTrimmed ('{' ::
          (spaced (members.map fun m => memberText m.1 m.2.1.toList) ++ [' ']) ++ ['}']) :=
        isTrimmed_cons_concat _ rfl rfl
      simpa using hends
    · intro n hn
      rw [htext] at hn ⊢
      obtain ⟨n, rfl⟩ : ∃ m, n = m + 1 := ⟨n - 1, by omega⟩
      rw [describe_object hview, List.map_map]
      congr 1
      refine List.map_congr_left fun m hm => ?_
      have hmember : (memberText m.1 m.2.1.toList).length ≤
          (spaced (members.map fun m => memberText m.1 m.2.1.toList)).length :=
        length_le_spaced (List.mem_map_of_mem hm)
      have hlt : m.2.1.toList.length < n := by
        simp only [memberText, List.length_append, List.length_cons, String.reduceToList] at hmember hn
        omega
      simp only [Function.comp_apply, (h m hm).2.1.describe_eq n hlt]

end RouteScribe.Schema.TypeText
