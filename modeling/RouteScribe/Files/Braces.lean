import RouteScribe.Text.Fields

/-!
# Brace alternatives

A pattern such as `src/*.{ts,tsx}` stands for one pattern per alternative.  The leftmost group
that holds a comma and no further brace is multiplied out first, and its results are expanded again,
so nested groups are multiplied out from the inside.
-/

namespace RouteScribe.Files

/-- A pattern cut at a group: what stands before it, its alternatives, and what stands after it. -/
structure BraceGroup where
  before : List Char
  options : List (List Char)
  after : List Char
  deriving Repr

/-- The body of a group that opens here, and what follows its closing brace; there is none when
another opening brace comes first, or no comma stands in the body. -/
def groupBody? (cs : List Char) : Option (List Char × List Char) :=
  let body := cs.takeWhile fun c => c != '{' && c != '}'
  match cs.dropWhile fun c => c != '{' && c != '}' with
  | '}' :: rest => if body.contains ',' then some (body, rest) else none
  | _ => none

/-- The leftmost group of a pattern. -/
def findGroup? : List Char → Option BraceGroup
  | [] => none
  | c :: cs =>
    let later := (findGroup? cs).map fun g => { g with before := c :: g.before }
    if c = '{' then
      match groupBody? cs with
      | some (body, rest) => some ⟨[], Text.fields ',' body, rest⟩
      | none => later
    else later

/-- How many braces open in a pattern. -/
def openBraces (cs : List Char) : Nat :=
  cs.countP (· == '{')

theorem openBraces_append (a b : List Char) :
    openBraces (a ++ b) = openBraces a + openBraces b :=
  List.countP_append ..

theorem mem_of_mem_fields {sep c : Char} {f cs : List Char} (hf : f ∈ Text.fields sep cs)
    (hc : c ∈ f) : c ∈ cs := by
  induction cs generalizing f with
  | nil => simp [Text.fields] at hf; simp [hf] at hc
  | cons d ds ih =>
    by_cases hd : d = sep
    · simp only [Text.fields, hd, if_true, List.mem_cons] at hf
      rcases hf with rfl | hf
      · cases hc
      · exact List.mem_cons_of_mem _ (ih hf hc)
    · simp only [Text.fields, hd, if_false] at hf
      cases hs : Text.fields sep ds with
      | nil => exact absurd hs (Text.fields_ne_nil sep ds)
      | cons g gs =>
        rw [hs] at hf
        simp only [List.mem_cons] at hf
        rcases hf with rfl | hf
        · rcases List.mem_cons.1 hc with rfl | hc
          · simp
          · exact List.mem_cons_of_mem _ (ih (f := g) (by simp [hs]) hc)
        · exact List.mem_cons_of_mem _ (ih (f := f) (by simp [hs, hf]) hc)

theorem groupBody?_spec {cs body rest : List Char} (h : groupBody? cs = some (body, rest)) :
    cs = body ++ '}' :: rest ∧ ∀ c ∈ body, c ≠ '{' := by
  unfold groupBody? at h
  dsimp only at h
  split at h
  · rename_i rest' hd
    split at h
    · cases h
      constructor
      · rw [← hd, List.takeWhile_append_dropWhile]
      · intro c hc
        have := List.all_eq_true.1 List.all_takeWhile c hc
        simp only [bne_iff_ne, Bool.and_eq_true] at this
        exact this.1
    · cases h
  · cases h

/-- Every alternative of a group, put in the place of the group, leaves fewer opening braces. -/
theorem openBraces_option_lt {cs : List Char} {g : BraceGroup} (h : findGroup? cs = some g)
    {o : List Char} (ho : o ∈ g.options) :
    openBraces (g.before ++ o ++ g.after) < openBraces cs := by
  induction cs generalizing g with
  | nil => simp [findGroup?] at h
  | cons c cs ih =>
    have later : ∀ {g : BraceGroup}, o ∈ g.options →
        (findGroup? cs).map (fun g => { g with before := c :: g.before }) = some g →
        openBraces (g.before ++ o ++ g.after) < openBraces (c :: cs) := by
      intro g ho h
      obtain ⟨g', hg', rfl⟩ := Option.map_eq_some_iff.1 h
      have := ih hg' ho
      have e : openBraces (c :: (g'.before ++ o ++ g'.after))
          = openBraces [c] + openBraces (g'.before ++ o ++ g'.after) := openBraces_append [c] _
      have e' : openBraces (c :: cs) = openBraces [c] + openBraces cs := openBraces_append [c] _
      simp only [List.cons_append] at *
      omega
    simp only [findGroup?] at h
    by_cases hc : c = '{'
    · rw [if_pos hc] at h
      cases hb : groupBody? cs with
      | none =>
        rw [hb] at h
        exact later ho h
      | some br =>
        rw [hb] at h
        cases h
        obtain ⟨hcs, hbody⟩ := groupBody?_spec (show groupBody? cs = some (br.1, br.2) from hb)
        have hzero : openBraces o = 0 := by
          refine List.countP_eq_zero.2 fun d hd => ?_
          have := hbody d (mem_of_mem_fields ho hd)
          simpa using this
        have e : openBraces (c :: cs) = openBraces [c] + openBraces cs := openBraces_append [c] _
        have e₁ : openBraces [c] = 1 := by simp [openBraces, hc]
        have e₂ : openBraces cs = openBraces br.1 + openBraces ('}' :: br.2) := by
          rw [hcs, openBraces_append]
        have e₃ : openBraces ('}' :: br.2) = openBraces br.2 := by simp [openBraces]
        simp only [List.nil_append, openBraces_append]
        omega
    · rw [if_neg hc] at h
      exact later ho h

/-- All patterns that a pattern with alternatives stands for, in the order of the alternatives. -/
def expandChars (cs : List Char) : List (List Char) :=
  match _h : findGroup? cs with
  | none => [cs]
  | some g => g.options.attach.flatMap fun ⟨o, _⟩ => expandChars (g.before ++ o ++ g.after)
termination_by openBraces cs
decreasing_by exact openBraces_option_lt _h (by assumption)

/-- All patterns that a pattern stands for. -/
def expandBraces (pattern : String) : List String :=
  (expandChars pattern.toList).map String.ofList

end RouteScribe.Files
