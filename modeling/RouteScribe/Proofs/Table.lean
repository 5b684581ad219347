import Mathlib.Tactic
import RouteScribe.Table

/-!
# First occurrences and tables

Names in a document stand in the order in which they first occur.  `List.eraseDups` keeps the first
occurrence of each item; the lemmas here say how it goes together with the ways lists of names are
made: adding an item at the end, selecting, mapping, and repeating a whole list.

A table that is made from a list of entries has its names in this order (`names_ofList`), so it is
determined by that order and by the last entry under each name.  Hence entries that come a second
time, all of them and in the same order, change nothing (`ofList_append_self`).
-/

namespace RouteScribe

section FirstOccurrences

variable {α β : Type} [BEq α] [LawfulBEq α] [BEq β] [LawfulBEq β]

/-- An item at the end counts if it is new. -/
lemma eraseDups_concat (l : List α) (a : α) :
    (l ++ [a]).eraseDups = if a ∈ l then l.eraseDups else l.eraseDups ++ [a] := by
  rw [List.eraseDups_append]
  by_cases h : a ∈ l
  · simp [List.removeAll, h]
  · simp [List.removeAll, h, List.eraseDups_cons]

lemma nodup_eraseDups (l : List α) : l.eraseDups.Nodup := by
  induction l using List.reverseRecOn with
  | nil => exact List.nodup_nil
  | append_singleton l a ih =>
    rw [eraseDups_concat]
    split
    · exact ih
    · rename_i h
      rw [List.nodup_append]
      refine ⟨ih, List.nodup_singleton a, fun b hb c hc hbc => h ?_⟩
      rw [List.mem_singleton] at hc
      exact List.mem_eraseDups.1 (hc ▸ hbc ▸ hb)

lemma eraseDups_filter (p : α → Bool) (l : List α) :
    (l.filter p).eraseDups = l.eraseDups.filter p := by
  induction l using List.reverseRecOn with
  | nil => rfl
  | append_singleton l a ih =>
    rw [List.filter_append, eraseDups_concat]
    by_cases hp : p a = true
    · rw [List.filter_cons_of_pos hp, List.filter_nil, eraseDups_concat, ih]
      by_cases ha : a ∈ l
      · simp [ha, hp]
      · simp [ha, hp]
    · rw [List.filter_cons_of_neg hp, List.filter_nil, List.append_nil, ih]
      split
      · rfl
      · simp [hp]

/-- Items that a map tells apart are told apart afterwards. -/
lemma eraseDups_map_of_injOn {f : α → β} {l : List α}
    (h : ∀ a ∈ l, ∀ b ∈ l, f a = f b → a = b) : (l.map f).eraseDups = l.eraseDups.map f := by
  induction l using List.reverseRecOn with
  | nil => rfl
  | append_singleton l a ih =>
    have hmem : f a ∈ l.map f ↔ a ∈ l := by
      refine ⟨fun hm => ?_, List.mem_map_of_mem⟩
      obtain ⟨b, hb, heq⟩ := List.mem_map.1 hm
      rwa [← h b (by simp [hb]) a (by simp) heq]
    have hl := ih fun a ha b hb => h a (by simp [ha]) b (by simp [hb])
    rw [List.map_append, List.map_singleton, eraseDups_concat, eraseDups_concat, hl]
    by_cases ha : a ∈ l
    · rw [if_pos (hmem.2 ha), if_pos ha]
    · rw [if_neg (mt hmem.1 ha), if_neg ha, List.map_append, List.map_singleton]

/-- What first occurs in a list after a map first occurs there without the repetitions too. -/
lemma eraseDups_map_eraseDups (f : α → β) (l : List α) :
    (l.eraseDups.map f).eraseDups = (l.map f).eraseDups := by
  induction l using List.reverseRecOn with
  | nil => rfl
  | append_singleton l a ih =>
    rw [List.map_append, List.map_singleton, eraseDups_concat, eraseDups_concat]
    by_cases ha : a ∈ l
    · rw [if_pos ha, if_pos (List.mem_map_of_mem ha), ih]
    · have hmem : f a ∈ l.eraseDups.map f ↔ f a ∈ l.map f := by
        simp only [List.mem_map, List.mem_eraseDups]
      rw [if_neg ha, List.map_append, List.map_singleton, eraseDups_concat, ih]
      simp only [hmem]

lemma eraseDups_append_self (l : List α) : (l ++ l).eraseDups = l.eraseDups := by
  have hnone : l.removeAll l = [] := by
    rw [List.removeAll, List.filter_eq_nil_iff]
    intro a ha
    simp [ha]
  rw [List.eraseDups_append, hnone, List.eraseDups_nil, List.append_nil]

/-- To put the items of a list behind another one if they are not there yet. -/
lemma foldl_new (old new : List α) :
    new.foldl (fun l a => if l.contains a then l else l ++ [a]) old =
      old ++ (new.removeAll old).eraseDups := by
  induction new using List.reverseRecOn with
  | nil => exact (List.append_nil old).symm
  | append_singleton new a ih =>
    have hsplit : (new ++ [a]).removeAll old =
        new.removeAll old ++ if a ∈ old then [] else [a] := by
      by_cases ha : a ∈ old <;> simp [List.removeAll, ha]
    rw [List.foldl_concat, ih, hsplit]
    by_cases ha : a ∈ old
    · simp [ha]
    · have hmem : a ∈ old ++ (new.removeAll old).eraseDups ↔ a ∈ new.removeAll old := by
        simp [ha]
      rw [if_neg ha, eraseDups_concat]
      by_cases hnew : a ∈ new.removeAll old
      · rw [if_pos (List.contains_iff_mem.2 (hmem.2 hnew)), if_pos hnew]
      · rw [if_neg (mt List.contains_iff_mem.1 (mt hmem.1 hnew)), if_neg hnew, List.append_assoc]

/-- The items of a list in the order in which they first occur there, each once: the same items, and
those that stand further ahead first occur further ahead. -/
structure FirstOccurrences (firsts items : List α) : Prop where
  mem_iff : ∀ a, a ∈ firsts ↔ a ∈ items
  increasing : firsts.Pairwise fun a b => items.idxOf a < items.idxOf b

lemma firstOccurrences_eraseDups (l : List α) : FirstOccurrences l.eraseDups l where
  mem_iff _ := List.mem_eraseDups
  increasing := by
    induction l using List.reverseRecOn with
    | nil => exact .nil
    | append_singleton l a ih =>
      -- Items of the shorter list first occur where they did.
      have hsame {b : α} (hb : b ∈ l.eraseDups) : (l ++ [a]).idxOf b = l.idxOf b :=
        List.idxOf_append_of_mem (List.mem_eraseDups.1 hb)
      have hfront : l.eraseDups.Pairwise fun b c => (l ++ [a]).idxOf b < (l ++ [a]).idxOf c :=
        ih.imp_of_mem fun hb hc hlt => by rwa [hsame hb, hsame hc]
      rw [eraseDups_concat]
      split
      case isTrue => exact hfront
      case isFalse hnew =>
        refine List.pairwise_append.2 ⟨hfront, List.pairwise_singleton _ a, fun b hb c hc => ?_⟩
        obtain rfl := List.mem_singleton.1 hc
        rw [hsame hb, List.idxOf_append_of_notMem hnew]
        exact Nat.lt_add_right _ (List.idxOf_lt_length_of_mem (List.mem_eraseDups.1 hb))

end FirstOccurrences

/-- What is looked up is in the list. -/
lemma mem_of_lookup {α β : Type} [BEq α] [LawfulBEq α] {l : List (α × β)} {a : α} {b : β}
    (h : l.lookup a = some b) : (a, b) ∈ l := by
  obtain ⟨before, after, rfl, -⟩ := List.lookup_eq_some_iff.1 h
  exact List.mem_append_right _ List.mem_cons_self

namespace Table

variable {α : Type}

lemma ofList_concat (entries : List (String × α)) (e : String × α) :
    ofList (entries ++ [e]) = put e.1 e.2 (ofList entries) := by
  simp [ofList, putAll]

/-- The names of a table made from a list, in the order in which they first occur. -/
theorem names_ofList (entries : List (String × α)) :
    names (ofList entries) = (names entries).eraseDups := by
  induction entries using List.reverseRecOn with
  | nil => rfl
  | append_singleton entries e ih =>
    have hnames : names (entries ++ [e]) = names entries ++ [e.1] := by simp [names]
    rw [ofList_concat, names_put, hnames, eraseDups_concat, ih]
    simp only [List.mem_eraseDups]

/-- An entry of a table is found under its name. -/
lemma lookup_of_mem {name : String} {value : α} {table : List (String × α)}
    (h : (names table).Nodup) (hmem : (name, value) ∈ table) : table.lookup name = some value := by
  induction table with
  | nil => cases hmem
  | cons e rest ih =>
    rw [names_cons, List.nodup_cons] at h
    rcases List.mem_cons.1 hmem with rfl | hrest
    · rw [List.lookup_cons_self]
    · have hne : (name == e.1) = false := by
        rw [beq_eq_false_iff_ne]
        rintro rfl
        exact h.1 (List.mem_map.2 ⟨_, hrest, rfl⟩)
      rw [List.lookup_cons, hne]
      exact ih h.2 hrest

/-- What is found after a value was put. -/
lemma lookup_put (name : String) (value : α) (table : List (String × α)) (name' : String) :
    (put name value table).lookup name' = if name' = name then some value else table.lookup name' := by
  induction table with
  | nil =>
    by_cases h : name' = name
    · rw [put, h, List.lookup_cons_self, if_pos rfl]
    · rw [put, List.lookup_cons, beq_eq_false_iff_ne.2 h, if_neg h]
  | cons e rest ih =>
    obtain ⟨n, old⟩ := e
    rw [put]
    by_cases hn : n = name
    · subst hn
      rw [if_pos rfl, List.lookup_cons, List.lookup_cons]
      by_cases h : name' = n
      · rw [beq_iff_eq.2 h, if_pos h]
      · rw [beq_eq_false_iff_ne.2 h, if_neg h]
    · rw [if_neg hn, List.lookup_cons, List.lookup_cons, ih]
      by_cases h : name' = n
      · have hname : name' ≠ name := h ▸ hn
        rw [beq_iff_eq.2 h, if_neg hname, if_neg hname]
      · rw [beq_eq_false_iff_ne.2 h]

/-- In a table made from a list, the last entry under a name is found. -/
theorem lookup_ofList {name : String} {value : α} {before after : List (String × α)}
    (h : name ∉ names after) :
    (ofList (before ++ (name, value) :: after)).lookup name = some value := by
  refine lookup_of_mem (nodup_ofList _) (mem_ofList.2 ?_)
  have hafter : after.reverse.find? (·.1 == name) = none := by
    rw [List.find?_eq_none]
    rintro e he heq
    rw [← eq_of_beq heq] at h
    exact h (mem_names_of_mem (List.mem_reverse.1 he))
  rw [List.reverse_append, List.reverse_cons, List.append_assoc, List.find?_append, hafter]
  simp

lemma mem_of_mem_put {name : String} {value : α} {table : List (String × α)} {e : String × α}
    (h : e ∈ put name value table) : e = (name, value) ∨ e ∈ table := by
  induction table with
  | nil => exact .inl (List.mem_singleton.1 h)
  | cons first rest ih =>
    rw [put] at h
    split at h
    case isTrue heq =>
      rcases List.mem_cons.1 h with rfl | hrest
      · exact .inl (by rw [heq])
      · exact .inr (List.mem_cons_of_mem _ hrest)
    case isFalse =>
      rcases List.mem_cons.1 h with rfl | hrest
      · exact .inr List.mem_cons_self
      · exact (ih hrest).imp_right (List.mem_cons_of_mem _)

/-- The entries of a table that others were put into. -/
lemma mem_of_mem_putAll {table entries : List (String × α)} {e : String × α}
    (h : e ∈ putAll table entries) : e ∈ table ∨ e ∈ entries := by
  induction entries generalizing table with
  | nil => exact .inl h
  | cons first rest ih =>
    rcases ih h with hput | hrest
    · rcases mem_of_mem_put hput with rfl | htable
      · exact .inr List.mem_cons_self
      · exact .inl htable
    · exact .inr (List.mem_cons_of_mem _ hrest)

lemma mem_of_mem_ofList {entries : List (String × α)} {e : String × α} (h : e ∈ ofList entries) :
    e ∈ entries :=
  (mem_of_mem_putAll h).resolve_left List.not_mem_nil

/-- The names of a table that others were put into. -/
lemma mem_names_putAll {table entries : List (String × α)} {name : String} :
    name ∈ names (putAll table entries) ↔ name ∈ names table ∨ name ∈ names entries := by
  induction entries generalizing table with
  | nil => simp [putAll]
  | cons first rest ih =>
    have hfirst : name ∈ names (put first.1 first.2 table) ↔ name ∈ names table ∨ name = first.1 := by
      rw [names_put]
      split
      case isTrue hmem => exact ⟨.inl, fun h => h.elim id fun heq => heq ▸ hmem⟩
      case isFalse => rw [List.mem_append, List.mem_singleton]
    have hall : name ∈ names (putAll table (first :: rest)) ↔
        name ∈ names (put first.1 first.2 table) ∨ name ∈ names rest := ih
    rw [hall, hfirst, names_cons, List.mem_cons, or_assoc]

/-- Two tables with the same names in the same order and the same entries are one table. -/
theorem eq_of_names_eq {table table' : List (String × α)} (hnames : names table = names table')
    (hnodup : (names table).Nodup) (h : ∀ e ∈ table, e ∈ table') : table = table' := by
  induction table generalizing table' with
  | nil =>
    cases table' with
    | nil => rfl
    | cons e rest => cases hnames
  | cons e rest ih =>
    cases table' with
    | nil => cases hnames
    | cons e' rest' =>
      simp only [names_cons, List.cons.injEq] at hnames
      simp only [names_cons, List.nodup_cons] at hnodup
      -- An entry under the first name can stand in the first place only.
      have hfirst : e = e' := by
        rcases List.mem_cons.1 (h e List.mem_cons_self) with heq | hrest
        · exact heq
        · exact absurd (hnames.2 ▸ mem_names_of_mem hrest) hnodup.1
      have hrest (f : String × α) (hf : f ∈ rest) : f ∈ rest' := by
        rcases List.mem_cons.1 (h f (List.mem_cons_of_mem _ hf)) with heq | hf'
        · rw [heq, ← hfirst] at hf
          exact absurd (mem_names_of_mem hf) hnodup.1
        · exact hf'
      rw [hfirst, ih hnames.2 hnodup.2 hrest]

/-- Entries that come a second time change nothing. -/
theorem ofList_append_self (entries : List (String × α)) :
    ofList (entries ++ entries) = ofList entries := by
  refine eq_of_names_eq ?_ (nodup_ofList _) fun e he => ?_
  · have happend : names (entries ++ entries) = names entries ++ names entries := by simp [names]
    rw [names_ofList, names_ofList, happend, eraseDups_append_self]
  · rw [mem_ofList, List.reverse_append, List.find?_append, Option.or_self] at he
    exact mem_ofList.2 he

end Table

end RouteScribe
