/-!
# Tables in insertion order

A table is a list of names with values in which a name that is put again keeps its place and takes
the new value.  Properties of objects, fields of documents and members of enumerations are tables:
the order in which names first appear is part of the output.
-/

namespace RouteScribe.Table

variable {α β : Type}

/-- Puts a value under a name: in the place of the old value, or at the end. -/
def put (name : String) (value : α) : List (String × α) → List (String × α)
  | [] => [(name, value)]
  | (n, old) :: rest => if n = name then (n, value) :: rest else (n, old) :: put name value rest

/-- Puts all entries of a list, one after the other. -/
def putAll (table : List (String × α)) (entries : List (String × α)) : List (String × α) :=
  entries.foldl (fun t e => put e.1 e.2 t) table

/-- The table of a list of entries: a repeated name keeps its first place and its last value. -/
def ofList (entries : List (String × α)) : List (String × α) :=
  putAll [] entries

/-- The names of a table, in order. -/
def names (table : List (String × α)) : List String := table.map (·.1)

@[simp] theorem names_nil : names ([] : List (String × α)) = [] := rfl

@[simp] theorem names_cons (e : String × α) (table : List (String × α)) :
    names (e :: table) = e.1 :: names table := rfl

/-- The names after a value was put: a new name goes to the end. -/
theorem names_put (name : String) (value : α) (table : List (String × α)) :
    names (put name value table)
      = if name ∈ names table then names table else names table ++ [name] := by
  induction table with
  | nil => simp [put]
  | cons e rest ih =>
    obtain ⟨n, old⟩ := e
    by_cases h : n = name
    · simp [put, h]
    · have h' : ¬ name = n := fun e => h e.symm
      by_cases hm : name ∈ names rest
      · simp [put, h, ih, hm]
      · simp [put, h, h', ih, hm]

/-- No name is repeated after a value was put. -/
theorem nodup_put {name : String} {value : α} {table : List (String × α)}
    (h : (names table).Nodup) : (names (put name value table)).Nodup := by
  rw [names_put]
  split
  · exact h
  · rename_i hm
    exact List.nodup_append.2 ⟨h, by simp, by
      intro a ha b hb
      simp only [List.mem_singleton] at hb
      subst hb
      intro e
      exact hm (e ▸ ha)⟩

theorem nodup_putAll {table entries : List (String × α)} (h : (names table).Nodup) :
    (names (putAll table entries)).Nodup := by
  unfold putAll
  induction entries generalizing table with
  | nil => exact h
  | cons e es ih => exact ih (nodup_put h)

theorem nodup_ofList (entries : List (String × α)) : (names (ofList entries)).Nodup :=
  nodup_putAll List.nodup_nil

theorem mem_names_of_mem {e : String × α} {table : List (String × α)} (h : e ∈ table) :
    e.1 ∈ names table := List.mem_map_of_mem h

/-- The entries after a value was put: those under other names, and the new one. -/
theorem mem_put {e : String × α} {name : String} {value : α} {table : List (String × α)}
    (h : (names table).Nodup) :
    e ∈ put name value table ↔ e = (name, value) ∨ (e.1 ≠ name ∧ e ∈ table) := by
  induction table with
  | nil => simp [put]
  | cons f rest ih =>
    obtain ⟨n, old⟩ := f
    rw [names_cons, List.nodup_cons] at h
    by_cases hn : n = name
    · subst hn
      have hrest : e ∈ rest → e.1 ≠ n := by
        intro he heq
        have hname := mem_names_of_mem he
        rw [heq] at hname
        exact h.1 hname
      rw [put, if_pos rfl, List.mem_cons, List.mem_cons]
      constructor
      · rintro (rfl | he)
        · exact .inl rfl
        · exact .inr ⟨hrest he, .inr he⟩
      · rintro (rfl | ⟨hne, rfl | he⟩)
        · exact .inl rfl
        · exact absurd rfl hne
        · exact .inr he
    · rw [put, if_neg hn, List.mem_cons, ih h.2, List.mem_cons]
      constructor
      · rintro (rfl | heq | ⟨hne, he⟩)
        · exact .inr ⟨hn, .inl rfl⟩
        · exact .inl heq
        · exact .inr ⟨hne, .inr he⟩
      · rintro (heq | ⟨hne, heq | he⟩)
        · exact .inr (.inl heq)
        · exact .inl heq
        · exact .inr (.inr ⟨hne, he⟩)

/-- The entries of a table made from a list: the last one under each name. -/
theorem mem_ofList {e : String × α} {entries : List (String × α)} :
    e ∈ ofList entries ↔ entries.reverse.find? (·.1 == e.1) = some e := by
  have hstep (l : List (String × α)) (f : String × α) :
      ofList (l ++ [f]) = put f.1 f.2 (ofList l) := by
    simp [ofList, putAll]
  rw [← List.reverse_reverse entries]
  generalize entries.reverse = l
  rw [List.reverse_reverse]
  induction l with
  | nil => simp [ofList, putAll]
  | cons f l ih =>
    rw [List.reverse_cons, hstep, List.find?_cons]
    refine (mem_put (nodup_ofList l.reverse)).trans ?_
    by_cases hname : f.1 = e.1
    · simp [hname, Prod.ext_iff, eq_comm]
    · have hbeq : (f.1 == e.1) = false := by simpa using hname
      have hne : e.1 ≠ f.1 := fun h => hname h.symm
      have hne' : e ≠ f := fun h => hname (by rw [h])
      simp [hbeq, hne, hne', ih]

end RouteScribe.Table
