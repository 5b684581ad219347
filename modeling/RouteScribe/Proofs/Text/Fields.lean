import Mathlib.Tactic
import RouteScribe.Text.Fields

/-!
# Cutting and joining texts

No field of a text that was cut holds the separator, and fields without it are what a text that was
joined from them is cut into again (`fields_joinFields`).
-/

namespace RouteScribe.Text

variable {sep : Char} {cs f : List Char} {fs : List (List Char)}

lemma fields_append_separator (sep : Char) (before after : List Char) :
    fields sep (before ++ sep :: after) = fields sep before ++ fields sep after := by
  induction before with
  | nil => simp [fields]
  | cons c before ih =>
    by_cases hc : c = sep
    · simp [fields, hc, ih]
    · simp only [List.cons_append, fields, if_neg hc, ih]
      cases hf : fields sep before with
      | nil => exact absurd hf (fields_ne_nil sep before)
      | cons f fs => rfl

lemma fields_of_notMem (h : sep ∉ cs) : fields sep cs = [cs] := by
  induction cs with
  | nil => rfl
  | cons c cs ih =>
    rw [List.mem_cons, not_or] at h
    rw [fields, if_neg fun hc => h.1 hc.symm, ih h.2]

lemma notMem_of_mem_fields (hf : f ∈ fields sep cs) : sep ∉ f := by
  induction cs generalizing f with
  | nil =>
    cases List.mem_singleton.1 hf
    exact List.not_mem_nil
  | cons c cs ih =>
    by_cases hc : c = sep
    · rw [fields, if_pos hc] at hf
      rcases List.mem_cons.1 hf with rfl | hf
      · exact List.not_mem_nil
      · exact ih hf
    · rw [fields, if_neg hc] at hf
      rcases hfields : fields sep cs with - | ⟨g, gs⟩
      · exact absurd hfields (fields_ne_nil sep cs)
      · rw [hfields] at hf ih
        rcases List.mem_cons.1 hf with rfl | hf
        · have hg : sep ∉ g := ih List.mem_cons_self
          simpa [Ne.symm hc] using hg
        · exact ih (List.mem_cons_of_mem _ hf)

/-- Fields without the separator are what the text is cut into that they are joined to. -/
lemma fields_joinFields (hne : fs ≠ []) (h : ∀ f ∈ fs, sep ∉ f) :
    fields sep (joinFields sep fs) = fs := by
  induction fs with
  | nil => exact absurd rfl hne
  | cons f rest ih =>
    have hfirst := fields_of_notMem (h f List.mem_cons_self)
    cases rest with
    | nil => exact hfirst
    | cons g rest =>
      have hrest := ih (List.cons_ne_nil g rest) fun f hf => h f (List.mem_cons_of_mem _ hf)
      rw [joinFields, fields_append_separator, hfirst, hrest, List.singleton_append]

lemma mem_joinFields {c : Char} (h : c ∈ joinFields sep fs) : c = sep ∨ ∃ f ∈ fs, c ∈ f := by
  induction fs with
  | nil => cases h
  | cons f rest ih =>
    cases rest with
    | nil => exact .inr ⟨f, List.mem_cons_self, h⟩
    | cons g rest =>
      rw [joinFields, List.mem_append, List.mem_cons] at h
      rcases h with h | rfl | h
      · exact .inr ⟨f, List.mem_cons_self, h⟩
      · exact .inl rfl
      · obtain rfl | ⟨f', hf', hc⟩ := ih h
        · exact .inl rfl
        · exact .inr ⟨f', List.mem_cons_of_mem _ hf', hc⟩

lemma joinFields_eq_intercalate (sep : Char) (fs : List (List Char)) :
    joinFields sep fs = [sep].intercalate fs := by
  induction fs with
  | nil => rfl
  | cons f rest ih =>
    cases rest with
    | nil => rw [joinFields, List.intercalate_singleton]
    | cons g rest =>
      rw [joinFields, ih, List.intercalate_cons_cons, List.append_assoc, List.singleton_append]

end RouteScribe.Text
