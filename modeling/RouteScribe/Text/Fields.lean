/-!
# Fields of a text

A text is cut at every occurrence of a separator character, and a list of fields is joined with a
separator between neighbours.  Cutting always yields at least one field, and joining the fields
with the separator gives the text back.
-/

namespace RouteScribe.Text

/-- The fields between the occurrences of `sep`; a text without it is one field. -/
def fields (sep : Char) : List Char → List (List Char)
  | [] => [[]]
  | c :: cs =>
    if c = sep then [] :: fields sep cs
    else
      match fields sep cs with
      | [] => [[c]]
      | f :: fs => (c :: f) :: fs

/-- The fields of a string, as strings. -/
def fieldsOf (sep : Char) (s : String) : List String :=
  (fields sep s.toList).map String.ofList

/-- The fields with `sep` between neighbours. -/
def joinFields (sep : Char) : List (List Char) → List Char
  | [] => []
  | [f] => f
  | f :: g :: fs => f ++ sep :: joinFields sep (g :: fs)

theorem fields_ne_nil (sep : Char) (cs : List Char) : fields sep cs ≠ [] := by
  cases cs with
  | nil => simp [fields]
  | cons c cs =>
    by_cases h : c = sep
    · simp [fields, h]
    · simp only [fields, h, if_false]
      cases fields sep cs <;> simp

end RouteScribe.Text
