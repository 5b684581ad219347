import RouteScribe.Proofs.Files.Frame
import RouteScribe.Proofs.Files.Names
import RouteScribe.Proofs.Route.FolderPaths

/-!
# Scopes of middleware

The folders that can hold middleware for a file are those on the way from the root of the convention
down to the folder of the file.  They are found by climbing from the folder of the file, and the
climb is described from its other end: at the root it stops (`climbScopes_root`), one folder further
down it begins with that folder and goes on as from the one above (`climbScopes_concat`), and outside
the root it stops at once (`climbScopes_of_outside`).  By induction on the way down, a climb meets
each folder of the way once, the deepest first (`climbScopes_append`).
-/

namespace RouteScribe.Route

open Files (IsEntryName Path Workspace)

/-- A folder holds a file called `middleware` with the suffix of a source file. -/
def HoldsMiddleware (w : Workspace) (folder : List String) : Prop :=
  ∃ suffix ∈ [".ts", ".tsx", ".js", ".jsx"], (w.fileAt (folder ++ ["middleware" ++ suffix])).isSome

instance (w : Workspace) (folder : List String) : Decidable (HoldsMiddleware w folder) := by
  unfold HoldsMiddleware; infer_instance

section

variable {w : Workspace} {root place names : List String} {n : String}

lemma hasMiddleware_iff : hasMiddleware w place = true ↔ HoldsMiddleware w place := by
  unfold hasMiddleware
  rw [List.any_eq_true]
  refine exists_congr fun suffix => and_congr_right fun _ => ?_
  rw [Workspace.fileAt, Files.Entry.fileAt]
  rcases w.root.get? (place ++ ["middleware" ++ suffix]) with - | ⟨content | entries⟩
  · simp
  · simp [Files.Entry.isFile]
  · simp [Files.Entry.isFile]

/-! ## The climb -/

lemma scopesAt?_append : scopesAt? w root (root ++ names) =
    some (if HoldsMiddleware w (root ++ names) then [pathOf names] else []) := by
  rw [scopesAt?, relativeTo?_append, Option.map_some]
  simp only [hasMiddleware_iff]

lemma scopesAt?_of_outside (h : ¬root <+: place) : scopesAt? w root place = none := by
  rw [scopesAt?, Path.relativeTo?, if_neg (by simpa using h), Option.map_none]

lemma climbScopes_of_outside (h : ¬root <+: place) : climbScopes w root place.reverse = [] := by
  rcases hup : place.reverse with - | ⟨n, up⟩
  · rw [List.reverse_eq_nil_iff.1 hup] at h
    rw [climbScopes, scopesAt?_of_outside h]
    rfl
  · have hplace : (n :: up).reverse = place := by rw [← hup, List.reverse_reverse]
    rw [climbScopes, hplace, scopesAt?_of_outside h]

lemma climbScopes_root :
    climbScopes w root root.reverse = if HoldsMiddleware w root then [pathOf []] else [] := by
  have hroot : scopesAt? w root (root ++ []) = _ := scopesAt?_append
  rw [List.append_nil] at hroot
  rcases hup : root.reverse with - | ⟨n, up⟩
  · obtain rfl := List.reverse_eq_nil_iff.1 hup
    rw [climbScopes, hroot]
    rfl
  · have hplace : (n :: up).reverse = root := by rw [← hup, List.reverse_reverse]
    rw [climbScopes, hplace, hroot]
    simp

lemma climbScopes_concat : climbScopes w root (root ++ (names ++ [n])).reverse =
    (if HoldsMiddleware w (root ++ (names ++ [n])) then [pathOf (names ++ [n])] else []) ++
      climbScopes w root (root ++ names).reverse := by
  have hup : (root ++ (names ++ [n])).reverse = n :: (root ++ names).reverse := by simp
  have hbelow : root ++ (names ++ [n]) ≠ root := by simp
  rw [hup, climbScopes, ← hup, List.reverse_reverse, scopesAt?_append]
  dsimp only
  rw [if_neg hbelow]

/-- A climb meets the folders on the way to its end, the deepest first. -/
lemma climbScopes_append : climbScopes w root (root ++ names).reverse =
    ((names.inits.filter fun below => HoldsMiddleware w (root ++ below)).map pathOf).reverse := by
  induction names using List.reverseRecOn with
  | nil =>
    rw [List.append_nil, climbScopes_root]
    by_cases h : HoldsMiddleware w root
    · simp [h]
    · simp [h]
  | append_singleton names n ih =>
    have hinits : (names ++ [n]).inits = names.inits ++ [names ++ [n]] := by
      simp [List.inits_append]
    rw [climbScopes_concat, ih, hinits, List.filter_append, List.map_append, List.reverse_append]
    by_cases h : HoldsMiddleware w (root ++ (names ++ [n]))
    · simp [h]
    · simp [h]

end

/-! ## The scopes of a file -/

variable {w : Workspace} {root file : Path} {names : List String}

lemma foldersBelow_of_below {cwd : List String}
    (h : file.parent.resolve cwd = root.resolve cwd ++ names) :
    foldersBelow cwd file root = some names := by
  rw [foldersBelow, h, relativeTo?_append]

lemma middlewareScopes_of_below
    (h : file.parent.resolve w.cwd = root.resolve w.cwd ++ names) :
    middlewareScopes w file root =
      (names.inits.filter fun below => HoldsMiddleware w (root.resolve w.cwd ++ below)).map pathOf := by
  rw [middlewareScopes, h, climbScopes_append, List.reverse_reverse]

/-- The folders on a way down, in order, each one deeper than those before. -/
lemma pairwise_length_inits (names : List String) :
    names.inits.Pairwise fun a b => a.length < b.length := by
  induction names using List.reverseRecOn with
  | nil => simp
  | append_singleton names n ih =>
    have hinits : (names ++ [n]).inits = names.inits ++ [names ++ [n]] := by
      simp [List.inits_append]
    rw [hinits, List.pairwise_append]
    refine ⟨ih, List.pairwise_singleton _ _, fun a ha b hb => ?_⟩
    rw [List.mem_singleton.1 hb, List.length_append]
    exact Nat.lt_succ_of_le ((List.mem_inits _ _).1 ha).length_le

/-- **Scopes of middleware.**  A file outside the root has none.  Otherwise the scopes are the
prefixes of exactly those folders that hold a middleware file, of all folders from the root down to
that of the file.  Each scope is deeper than those before it, so no two are equal, and its segments
are the first ones of the path that the folder of the file contributes. -/
theorem scopes_of_middleware (w : Workspace) (root file : Path) :
    (¬root.resolve w.cwd <+: file.parent.resolve w.cwd → middlewareScopes w file root = []) ∧
    ∀ names, file.parent.resolve w.cwd = root.resolve w.cwd ++ names →
      middlewareScopes w file root =
        (names.inits.filter fun below => HoldsMiddleware w (root.resolve w.cwd ++ below)).map
          (fun below => "/" ++ "/".intercalate below) ∧
      ((∀ n ∈ w.cwd, IsEntryName n) → file.IsWellNamed →
        (middlewareScopes w file root).Pairwise
          (fun a b => a ≠ b ∧ (segments a).length < (segments b).length) ∧
        ∃ folder, groupPath w.cwd file root = some folder ∧
          ∀ scope ∈ middlewareScopes w file root, segments scope <+: segments folder) := by
  refine ⟨fun houtside => ?_, fun names hbelow => ⟨middlewareScopes_of_below hbelow, ?_⟩⟩
  · rw [middlewareScopes, climbScopes_of_outside houtside]
    rfl
  intro hcwd hfile
  have hnames : ∀ n ∈ names, n ≠ "" ∧ '/' ∉ n.toList := by
    intro n hn
    have hmem : n ∈ file.parent.resolve w.cwd := hbelow ▸ List.mem_append_right _ hn
    obtain ⟨hne, -, -, hslash⟩ := Path.isEntryName_of_mem_resolve hcwd hfile.parent hmem
    exact ⟨hne, hslash⟩
  have hsegments {below : List String} (h : below ∈ names.inits) : segments (pathOf below) = below :=
    segments_pathOf fun n hn => hnames n (((List.mem_inits _ _).1 h).subset hn)
  rw [middlewareScopes_of_below hbelow]
  refine ⟨?_, pathOf names, ?_, fun scope hscope => ?_⟩
  · refine List.pairwise_map.2 (((pairwise_length_inits names).filter _).imp_of_mem ?_)
    intro a b ha hb hlt
    rw [hsegments (List.mem_of_mem_filter ha), hsegments (List.mem_of_mem_filter hb)]
    refine ⟨fun heq => ?_, hlt⟩
    have hab : a = b := by
      rw [← hsegments (List.mem_of_mem_filter ha), heq, hsegments (List.mem_of_mem_filter hb)]
    exact absurd (congrArg List.length hab) hlt.ne
  · rw [groupPath, foldersBelow_of_below hbelow, Option.map_some]
  · obtain ⟨below, hbelow', rfl⟩ := List.mem_map.1 hscope
    have hinit := List.mem_of_mem_filter hbelow'
    rw [hsegments hinit, segments_pathOf hnames]
    exact (List.mem_inits _ _).1 hinit

/-- Folders with middleware, one of them left out, and a route that is reached through a folder
beside the root. -/
theorem scopes_of_middleware_nested :
    let source : Files.Entry := .file ByteArray.empty
    let users : Files.Entry := .folder [("middleware.jsx", source), ("route.ts", source)]
    let admin : Files.Entry := .folder [("users", users)]
    let routes : Files.Entry := .folder [("middleware.ts", source), ("admin", admin)]
    let w : Workspace := ⟨.folder [("app", .folder [("routes", routes)])], ["app"]⟩
    let root := Path.ofString "./lib/../routes/"
    let file := Path.ofString "routes/admin/users/route.ts"
    middlewareScopes w file root = ["/", "/admin/users"] ∧
      (∃ folder, groupPath w.cwd file root = some folder ∧ ∀ scope ∈ middlewareScopes w file root,
        segments scope <+: segments folder) ∧
      middlewareScopes w (Path.ofString "route.ts") root = [] := by
  intro source users admin routes w root file
  have hcwd : ∀ n ∈ w.cwd, IsEntryName n := by decide +kernel
  obtain ⟨hscopes, hrest⟩ := (scopes_of_middleware w root file).2 ["admin", "users"]
    (by decide +kernel)
  refine ⟨?_, (hrest hcwd (Path.isWellNamed_ofString _)).2,
    (scopes_of_middleware w root (Path.ofString "route.ts")).1 (by decide +kernel)⟩
  rw [hscopes]
  decide +kernel

end RouteScribe.Route
