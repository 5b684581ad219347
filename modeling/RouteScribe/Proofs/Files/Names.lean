import RouteScribe.Files.Path
import RouteScribe.Proofs.Text.Fields

/-!
# Names on the way to a file

The entries of a folder have names that are not empty, hold no slash, and are neither `.` nor `..`
(`IsEntryName`).  A path that is read from a text is made of such names and of `..`
(`Path.isWellNamed_ofString`), and resolving it leaves the names of entries only
(`Path.isEntryName_of_mem_resolve`), so the place it denotes can be written with slashes and cut at
them again.
-/

namespace RouteScribe.Files

/-- What an entry of a folder can be called. -/
def IsEntryName (n : String) : Prop := n ≠ "" ∧ n ≠ "." ∧ n ≠ ".." ∧ '/' ∉ n.toList

instance (n : String) : Decidable (IsEntryName n) := by unfold IsEntryName; infer_instance

namespace Path

variable {p : Path} {cwd place names : List String} {n : String}

/-- All names of the path are those of entries, or lead one folder up. -/
def IsWellNamed (p : Path) : Prop := ∀ n ∈ p.names, n ≠ ".." → IsEntryName n

instance (p : Path) : Decidable p.IsWellNamed := by unfold IsWellNamed; infer_instance

lemma isWellNamed_ofString (s : String) : (ofString s).IsWellNamed := by
  intro n hn hup
  obtain ⟨hfield, hkept⟩ := List.mem_filter.1 hn
  obtain ⟨f, hf, rfl⟩ := List.mem_map.1 hfield
  simp only [Bool.and_eq_true, bne_iff_ne] at hkept
  refine ⟨hkept.1, hkept.2, hup, ?_⟩
  rw [String.toList_ofList]
  exact Text.notMem_of_mem_fields hf

lemma IsWellNamed.parent (h : p.IsWellNamed) : p.parent.IsWellNamed :=
  fun n hn => h n (List.mem_of_mem_dropLast hn)

/-- The names that are met when a path is followed come from the place it starts at, or from the
path. -/
lemma mem_of_mem_follow (h : n ∈ follow place names) : n ∈ place ∨ n ∈ names ∧ n ≠ ".." := by
  induction names generalizing place with
  | nil => exact .inl h
  | cons m names ih =>
    rw [follow, List.foldl_cons] at h
    rcases ih h with hplace | hnames
    · by_cases hm : m = ".."
      · rw [if_pos hm] at hplace
        exact .inl (List.mem_of_mem_dropLast hplace)
      · rw [if_neg hm] at hplace
        rcases List.mem_append.1 hplace with hplace | hlast
        · exact .inl hplace
        · cases List.mem_singleton.1 hlast
          exact .inr ⟨List.mem_cons_self, hm⟩
    · exact .inr ⟨List.mem_cons_of_mem _ hnames.1, hnames.2⟩

/-- The place that a path denotes is made of the names of entries. -/
lemma isEntryName_of_mem_resolve (hcwd : ∀ n ∈ cwd, IsEntryName n) (hp : p.IsWellNamed)
    (h : n ∈ p.resolve cwd) : IsEntryName n := by
  rcases mem_of_mem_follow h with hstart | ⟨hname, hup⟩
  · split at hstart
    · cases hstart
    · exact hcwd n hstart
  · exact hp n hname hup

end Path

end RouteScribe.Files
