import Mathlib.Tactic
import RouteScribe.Proofs.Files.DefaultIgnores
import RouteScribe.Proofs.Files.Frame
import RouteScribe.Proofs.Files.PathOrder
import RouteScribe.Proofs.Table

/-!
# Which files are found

A folder is searched from the top, and folders that the ignore rules select are not entered; so a file
is found when it is selected and no folder on the way to it is left out (`Entry.mem_search_iff`).  The
files that a list of patterns finds are described by the patterns alone, as an increasing list
(`discover_exact`), whatever the compiler makes of the lines.  If the compiler knows what the lines fit
that always apply, then without ignore lines of one's own the condition on the folders follows from the
one on the file.
-/

namespace RouteScribe.Files

/-! ## File trees -/

/-- In every folder of the tree the entries have names of their own, and names that entries can have. -/
inductive Entry.IsProper : Entry → Prop where
  | file (content : ByteArray) : IsProper (.file content)
  | folder {entries : List (String × Entry)} (distinct : (Table.names entries).Nodup)
      (names : ∀ x ∈ entries, IsEntryName x.1) (below : ∀ x ∈ entries, x.2.IsProper) :
      IsProper (.folder entries)

namespace Entry

variable {e sub : Entry} {entries : List (String × Entry)} {s : Selection} {n : String}
  {at' names place : List String}

lemma get?_append (e : Entry) (place names : List String) :
    e.get? (place ++ names) = (e.get? place).bind (·.get? names) := by
  induction place generalizing e with
  | nil => rfl
  | cons n place ih =>
    rw [List.cons_append, get?_cons, get?_cons]
    cases e.child? n with
    | none => rfl
    | some sub => exact ih sub

lemma IsProper.get? (h : e.IsProper) (hsub : e.get? place = some sub) : sub.IsProper := by
  induction h generalizing place with
  | file content =>
    cases place with
    | nil =>
      cases hsub
      exact .file content
    | cons n place => cases hsub
  | folder distinct names below ih =>
    cases place with
    | nil =>
      cases hsub
      exact .folder distinct names below
    | cons n place =>
      obtain ⟨e, hn, hsub⟩ := Option.bind_eq_some_iff.1 hsub
      exact ih _ (mem_of_lookup hn) hsub

lemma IsProper.isEntryName (h : e.IsProper) (hsub : e.get? place = some sub) :
    ∀ n ∈ place, IsEntryName n := by
  induction h generalizing place with
  | file content =>
    cases place with
    | nil => exact List.forall_mem_nil _
    | cons n place => cases hsub
  | folder distinct names below ih =>
    cases place with
    | nil => exact List.forall_mem_nil _
    | cons n place =>
      obtain ⟨e, hn, hsub⟩ := Option.bind_eq_some_iff.1 hsub
      have hmem := mem_of_lookup hn
      exact List.forall_mem_cons.2 ⟨names _ hmem, ih _ hmem hsub⟩

/-- A regular file stands at a place. -/
def HasFile (e : Entry) (place : List String) : Prop := ∃ content, e.get? place = some (.file content)

end Entry

/-! ## Searching a tree -/

/-- No folder between the start and the end of the names is left out by the rules. -/
def IgnoreRules.EntersAbove (rules : IgnoreRules) (names : List String) : Prop :=
  ∀ folder below, names = folder ++ below → folder ≠ [] → below ≠ [] →
    rules.selects (Selection.relativeText folder ++ "/") = false

/-- The search of an entry, which stands at `above`, comes to a file below it and takes it. -/
structure Selection.Finds (s : Selection) (above : List String) (e : Entry) (names : List String) :
    Prop where
  hasFile : e.HasFile names
  takes : s.takes (above ++ names) = true
  enters : ∀ folder below, names = folder ++ below → folder ≠ [] → below ≠ [] →
    s.enters (above ++ folder) = true

section Search

variable {e : Entry} {entries : List (String × Entry)} {s : Selection} {n : String}
  {above names found : List String} {content : ByteArray}

lemma finds_file_iff : s.Finds above (.file content) names ↔ names = [] ∧ s.takes above = true := by
  constructor
  · rintro ⟨⟨_, hfile⟩, htakes, -⟩
    cases names with
    | nil => exact ⟨rfl, List.append_nil above ▸ htakes⟩
    | cons n names => cases hfile
  · rintro ⟨rfl, htakes⟩
    refine ⟨⟨content, rfl⟩, (List.append_nil above).symm ▸ htakes, fun folder below h hfolder => ?_⟩
    exact absurd (List.append_eq_nil_iff.1 h.symm).1 hfolder

lemma not_finds_folder_nil : ¬s.Finds above (.folder entries) [] := by
  rintro ⟨⟨_, hfile⟩, -⟩
  cases hfile

lemma finds_folder_cons_iff : s.Finds above (.folder entries) (n :: names) ↔
    ∃ e, entries.lookup n = some e ∧ (names ≠ [] → s.enters (above ++ [n]) = true) ∧
      s.Finds (above ++ [n]) e names := by
  constructor
  · rintro ⟨⟨content, hfile⟩, htakes, henters⟩
    obtain ⟨e, hn, hfile⟩ := Option.bind_eq_some_iff.1 hfile
    refine ⟨e, hn, fun hne => henters [n] names rfl (by simp) hne, ⟨content, hfile⟩, ?_, ?_⟩
    · rwa [List.append_assoc, List.singleton_append]
    · rintro folder below rfl - hbelow
      rw [List.append_assoc]
      exact henters (n :: folder) below rfl (by simp) hbelow
  · rintro ⟨e, hn, hfirst, ⟨content, hfile⟩, htakes, henters⟩
    refine ⟨⟨content, Option.bind_eq_some_iff.2 ⟨e, hn, hfile⟩⟩, ?_, ?_⟩
    · rwa [List.append_assoc, List.singleton_append] at htakes
    · rintro (- | ⟨m, folder⟩) below h hfolder hbelow
      · exact absurd rfl hfolder
      · obtain ⟨rfl, rfl⟩ := List.cons.inj h
        rcases eq_or_ne folder [] with rfl | hne
        · exact hfirst (by simpa using hbelow)
        · have hdeep := henters folder below rfl hne hbelow
          rwa [List.append_assoc, List.singleton_append] at hdeep

lemma mem_searchEntries_iff_exists : found ∈ searchEntries s above entries ↔
    ∃ n e, (n, e) ∈ entries ∧ found ∈ e.search s (above ++ [n]) := by
  induction entries with
  | nil => simp [searchEntries]
  | cons x rest ih =>
    obtain ⟨m, e⟩ := x
    rw [searchEntries, List.mem_append, ih]
    constructor
    · rintro (hfirst | ⟨n, e', hmem, hrest⟩)
      · exact ⟨m, e, List.mem_cons_self, hfirst⟩
      · exact ⟨n, e', List.mem_cons_of_mem _ hmem, hrest⟩
    · rintro ⟨n, e', hmem, hfound⟩
      rcases List.mem_cons.1 hmem with heq | hmem
      · cases heq
        exact .inl hfound
      · exact .inr ⟨n, e', hmem, hfound⟩

/-- What is found below a folder is what is found at or below its entries. -/
lemma mem_searchEntries_iff (hdistinct : (Table.names entries).Nodup)
    (hentries : ∀ x ∈ entries, ∀ above, found ∈ x.2.search s above ↔ ∃ names, found = above ++ names ∧
      (names ≠ [] → s.enters above = true) ∧ s.Finds above x.2 names) :
    found ∈ searchEntries s above entries ↔
      ∃ names, found = above ++ names ∧ s.Finds above (.folder entries) names := by
  rw [mem_searchEntries_iff_exists]
  constructor
  · rintro ⟨n, e, hmem, hfound⟩
    obtain ⟨names, rfl, henters, hfinds⟩ := (hentries _ hmem _).1 hfound
    refine ⟨n :: names, by simp, finds_folder_cons_iff.2 ⟨e, ?_, henters, hfinds⟩⟩
    exact Table.lookup_of_mem hdistinct hmem
  · rintro ⟨- | ⟨n, names⟩, rfl, hfinds⟩
    · exact absurd hfinds not_finds_folder_nil
    · obtain ⟨e, hn, henters, hfinds⟩ := finds_folder_cons_iff.1 hfinds
      have hmem := mem_of_lookup hn
      exact ⟨n, e, hmem, (hentries _ hmem _).2 ⟨names, by simp, henters, hfinds⟩⟩

/-- **Not entering a folder leaves out just what is below it**: a search finds the files that are
selected, and that no folder on the way keeps it from. -/
theorem Entry.mem_search_iff (h : e.IsProper) (above : List String) :
    found ∈ e.search s above ↔ ∃ names, found = above ++ names ∧
      (names ≠ [] → s.enters above = true) ∧ s.Finds above e names := by
  induction h generalizing above with
  | file content =>
    rw [Entry.search]
    simp only [finds_file_iff]
    by_cases htakes : s.takes above = true
    · simp [htakes]
    · simp [htakes]
  | folder distinct names below ih =>
    rw [Entry.search]
    split
    case isTrue henters =>
      rw [mem_searchEntries_iff distinct ih]
      exact exists_congr fun names => and_congr_right fun _ => (and_iff_right fun _ => henters).symm
    case isFalse henters =>
      refine iff_of_false List.not_mem_nil ?_
      rintro ⟨names, -, hfirst, hfinds⟩
      refine henters (hfirst ?_)
      rintro rfl
      exact not_finds_folder_nil hfinds

end Search

/-! ## Places of found files -/

section Places

variable {w : Workspace} {root : Entry} {p : Path} {place place' names : List String}

lemma Path.follow_of_entryNames (h : ∀ n ∈ names, IsEntryName n) :
    Path.follow place names = place ++ names := by
  induction names generalizing place with
  | nil => simp [Path.follow]
  | cons n names ih =>
    obtain ⟨hn, hnames⟩ := List.forall_mem_cons.1 h
    rw [Path.follow, List.foldl_cons, if_neg hn.2.2.1]
    exact (ih hnames).trans (by simp)

lemma locateFrom_eq_follow (hnames : ∀ n ∈ names, n ≠ "" ∧ n ≠ ".")
    (h : Workspace.locateFrom root place names = .ok place') : place' = Path.follow place names := by
  induction names generalizing place with
  | nil => exact (Except.ok.inj h).symm
  | cons n names ih =>
    obtain ⟨⟨hne, hdot⟩, hnames⟩ := List.forall_mem_cons.1 hnames
    rw [Workspace.locateFrom] at h
    split at h
    · cases h
    · cases h
    · rw [if_neg (not_or.2 ⟨hne, hdot⟩)] at h
      exact ih hnames h

/-- A path that leads somewhere in the tree denotes that place, and what is below the place is denoted
by the path with further names. -/
lemma resolve_below_of_locate (hp : p.IsWellNamed) (hnames : ∀ n ∈ names, IsEntryName n)
    (h : w.locate p = .ok place) : (p.below names).resolve w.cwd = place ++ names := by
  have hkept : ∀ n ∈ p.names, n ≠ "" ∧ n ≠ "." := by
    intro n hn
    by_cases hup : n = ".."
    · rw [hup]
      decide
    · exact ⟨(hp n hn hup).1, (hp n hn hup).2.1⟩
  rw [locateFrom_eq_follow hkept h, ← Path.follow_of_entryNames hnames]
  exact List.foldl_append

lemma isFile_iff : w.isFile p = true ↔ ∃ place, w.locate p = .ok place ∧ w.root.HasFile place := by
  unfold Workspace.isFile Workspace.entry? Entry.HasFile
  rcases w.locate p with o | place
  · simp
  · rcases hget : w.root.get? place with - | ⟨content | entries⟩ <;> simp [hget, Entry.isFile]

lemma entry?_eq_some_iff {e : Entry} :
    w.entry? p = some e ↔ ∃ place, w.locate p = .ok place ∧ w.root.get? place = some e := by
  unfold Workspace.entry?
  rcases w.locate p with o | place <;> simp

/-- Files below a folder are files below the place of the folder. -/
lemma hasFile_append_iff (hne : names ≠ []) : root.HasFile (place ++ names) ↔
    ∃ entries, root.get? place = some (.folder entries) ∧ (Entry.folder entries).HasFile names := by
  unfold Entry.HasFile
  rw [Entry.get?_append]
  obtain ⟨n, ns, rfl⟩ := List.exists_cons_of_ne_nil hne
  rcases root.get? place with - | ⟨content | entries⟩ <;> simp [Entry.child?]

end Places

/-! ## Patterns -/

/-- The file at a place is one that an expanded pattern asks for, and the rules do not leave out the
file itself: it is named by the pattern, or it is below the folder that the pattern searches, by the
names that are given last. -/
inductive Sought (compile : IgnoreCompiler) (w : Workspace) (rules : IgnoreRules) (pattern : String) :
    Path → List String → List String → Prop where
  | named {base : Path} {place : List String} (split : splitBase pattern = (base, ""))
      (located : w.locate base = .ok place) (hasFile : w.root.HasFile place)
      (kept : rules.selects base.lastName = false) : Sought compile w rules pattern base place []
  | below {base : Path} {rest : String} {wanted : IgnoreRules} {place names : List String}
      (split : splitBase pattern = (base, rest)) (pattern_ne : rest ≠ "")
      (compiled : compile ["/" ++ rest] = .ok wanted)
      (located : w.locate base = .ok place) (names_ne : names ≠ [])
      (hasFile : w.root.HasFile (place ++ names))
      (selected : wanted.selects (Selection.relativeText names) = true)
      (kept : rules.selects (Selection.relativeText names) = false) :
      Sought compile w rules pattern (base.below names) (place ++ names) names

/-- What is left of an expanded pattern to match, if anything, is accepted by the compiler. -/
def IsAccepted (compile : IgnoreCompiler) (pattern : String) : Prop :=
  (splitBase pattern).2 ≠ "" → ∃ wanted, compile ["/" ++ (splitBase pattern).2] = .ok wanted

/-- What a file is called that a path leads to, and that stands at a place. -/
def Naming.nameOf : Naming → Path → List String → Path
  | .asFound, p, _ => p
  | .absolute, _, place => Path.absolute place

section Patterns

variable {compile : IgnoreCompiler} {w : Workspace} {rules : IgnoreRules} {pattern : String}
  {p f : Path} {files : List Path} {place names : List String}

lemma isWellNamed_splitBase {base : Path} {rest : String} (h : splitBase pattern = (base, rest)) :
    base.IsWellNamed := by
  cases h
  exact fun n hn => Path.isWellNamed_ofString pattern n ((List.takeWhile_sublist _).subset hn)

/-- What the search of a folder of the tree finds. -/
lemma mem_searchEntries_root_iff {wanted : IgnoreRules} {entries : List (String × Entry)}
    (hw : w.root.IsProper) (hfolder : w.root.get? place = some (.folder entries)) :
    names ∈ searchEntries ⟨wanted, rules⟩ [] entries ↔
      names ≠ [] ∧ w.root.HasFile (place ++ names) ∧
        wanted.selects (Selection.relativeText names) = true ∧
        rules.selects (Selection.relativeText names) = false ∧ rules.EntersAbove names := by
  obtain - | ⟨distinct, -, below⟩ := hw.get? hfolder
  rw [mem_searchEntries_iff distinct fun x hx => Entry.mem_search_iff (below x hx)]
  constructor
  · rintro ⟨_, rfl, hfinds⟩
    have hne : names ≠ [] := by
      rintro rfl
      exact not_finds_folder_nil hfinds
    obtain ⟨hfile, htakes, henters⟩ := hfinds
    obtain ⟨hwanted, hkept⟩ := Bool.and_eq_true_iff.1 htakes
    refine ⟨hne, (hasFile_append_iff hne).2 ⟨entries, hfolder, hfile⟩, hwanted, by simpa using hkept,
      fun folder below h hfolder hbelow => ?_⟩
    simpa [Selection.enters] using henters folder below h hfolder hbelow
  · rintro ⟨hne, hfile, hwanted, hkept, henters⟩
    obtain ⟨_, hfolder', hfile⟩ := (hasFile_append_iff hne).1 hfile
    cases hfolder.symm.trans hfolder'
    refine ⟨names, rfl, hfile, ?_, fun folder below h hfolder hbelow => ?_⟩
    · simp [Selection.takes, hwanted, hkept]
    · simpa [Selection.enters] using henters folder below h hfolder hbelow

/-- A pattern in which nothing is left to match names its base. -/
lemma candidates_named {base : Path} (hsplit : splitBase pattern = (base, "")) :
    candidates compile w rules pattern =
      .ok (if w.isFile base && !rules.selects base.lastName then [base] else []) := by
  unfold candidates
  rw [hsplit]
  exact if_pos rfl

/-- Any other pattern searches its base. -/
lemma candidates_below {base : Path} {rest : String} (hsplit : splitBase pattern = (base, rest))
    (hrest : rest ≠ "") :
    candidates compile w rules pattern = (compile ["/" ++ rest]).map fun wanted =>
      match w.entry? base with
      | some (.folder entries) => (searchEntries ⟨wanted, rules⟩ [] entries).map base.below
      | _ => [] := by
  unfold candidates
  rw [hsplit]
  exact if_neg hrest

/-- A pattern finds something, if only nothing, unless the compiler refuses it. -/
lemma exists_candidates_iff :
    (∃ files, candidates compile w rules pattern = .ok files) ↔ IsAccepted compile pattern := by
  unfold IsAccepted
  rcases hsplit : splitBase pattern with ⟨base, rest⟩
  by_cases hrest : rest = ""
  · subst hrest
    exact iff_of_true ⟨_, candidates_named hsplit⟩ fun hne => absurd rfl hne
  · rw [candidates_below hsplit hrest]
    rcases compile ["/" ++ rest] with e | wanted
    · refine iff_of_false ?_ fun h => ?_
      · rintro ⟨files, h⟩
        cases h
      · obtain ⟨wanted, h⟩ := h hrest
        cases h
    · exact iff_of_true ⟨_, rfl⟩ fun _ => ⟨wanted, rfl⟩

lemma mem_candidates_named_iff {base : Path} (hsplit : splitBase pattern = (base, ""))
    (h : candidates compile w rules pattern = .ok files) :
    f ∈ files ↔ f = base ∧ w.isFile base = true ∧ rules.selects base.lastName = false := by
  rw [candidates_named hsplit] at h
  cases h
  cases w.isFile base <;> cases rules.selects base.lastName <;> simp

lemma mem_candidates_below_iff {base : Path} {rest : String} (hsplit : splitBase pattern = (base, rest))
    (hrest : rest ≠ "") (h : candidates compile w rules pattern = .ok files) :
    f ∈ files ↔ ∃ wanted entries, compile ["/" ++ rest] = .ok wanted ∧
      w.entry? base = some (.folder entries) ∧
        ∃ names ∈ searchEntries ⟨wanted, rules⟩ [] entries, base.below names = f := by
  rw [candidates_below hsplit hrest] at h
  rcases hwanted : compile ["/" ++ rest] with e | wanted
  · rw [hwanted] at h
    cases h
  · rw [hwanted] at h
    cases h
    split
    case h_1 entries hentry => simp [hentry]
    case h_2 hnone =>
      refine iff_of_false List.not_mem_nil ?_
      rintro ⟨_, entries, -, hentry, -⟩
      exact hnone entries hentry

lemma mem_candidates_iff (hw : w.root.IsProper) (h : candidates compile w rules pattern = .ok files) :
    f ∈ files ↔ ∃ place names, Sought compile w rules pattern f place names ∧
      rules.EntersAbove names := by
  rcases hsplit : splitBase pattern with ⟨base, rest⟩
  by_cases hrest : rest = ""
  · subst hrest
    rw [mem_candidates_named_iff hsplit h]
    constructor
    · rintro ⟨rfl, hfile, hkept⟩
      obtain ⟨place, hplace, hfile⟩ := isFile_iff.1 hfile
      refine ⟨place, [], .named hsplit hplace hfile hkept, ?_⟩
      intro folder below h hfolder _
      exact absurd (List.append_eq_nil_iff.1 h.symm).1 hfolder
    · rintro ⟨place, _, ⟨split, located, hasFile, kept⟩ | ⟨split, pattern_ne⟩, -⟩
      · cases hsplit.symm.trans split
        exact ⟨rfl, isFile_iff.2 ⟨place, located, hasFile⟩, kept⟩
      · cases hsplit.symm.trans split
        exact absurd rfl pattern_ne
  · rw [mem_candidates_below_iff hsplit hrest h]
    constructor
    · rintro ⟨wanted, entries, hcompiled, hentry, names, hnames, rfl⟩
      obtain ⟨place, hplace, hfolder⟩ := entry?_eq_some_iff.1 hentry
      obtain ⟨hne, hfile, hwanted, hkept, henters⟩ := (mem_searchEntries_root_iff hw hfolder).1 hnames
      exact ⟨_, names, .below hsplit hrest hcompiled hplace hne hfile hwanted hkept, henters⟩
    · rintro ⟨_, names, ⟨split⟩ |
        ⟨split, pattern_ne, compiled, located, hne, hfile, hwanted, hkept⟩, henters⟩
      · cases hsplit.symm.trans split
        exact absurd rfl hrest
      · cases hsplit.symm.trans split
        obtain ⟨entries, hfolder, -⟩ := (hasFile_append_iff hne).1 hfile
        refine ⟨_, entries, compiled, entry?_eq_some_iff.2 ⟨_, located, hfolder⟩, names, ?_, rfl⟩
        exact (mem_searchEntries_root_iff hw hfolder).2 ⟨hne, hfile, hwanted, hkept, henters⟩

lemma Sought.isEntryName (h : Sought compile w rules pattern p place names) (hw : w.root.IsProper) :
    ∀ n ∈ names, IsEntryName n := by
  cases h with
  | named => exact List.forall_mem_nil _
  | below split pattern_ne compiled located names_ne hasFile =>
    obtain ⟨content, hfile⟩ := hasFile
    exact fun n hn => hw.isEntryName hfile n (List.mem_append_right _ hn)

lemma Sought.isWellNamed (h : Sought compile w rules pattern p place names) (hw : w.root.IsProper) :
    p.IsWellNamed := by
  have hnames := h.isEntryName hw
  cases h with
  | named split => exact isWellNamed_splitBase split
  | below split =>
    intro n hn hup
    rcases List.mem_append.1 hn with hn | hn
    · exact isWellNamed_splitBase split n hn hup
    · exact hnames n hn

/-- The place of a found file is what its path denotes. -/
lemma Sought.resolve (h : Sought compile w rules pattern p place names) (hw : w.root.IsProper) :
    p.resolve w.cwd = place := by
  have hnames := h.isEntryName hw
  cases h with
  | named split located =>
    have hresolve := resolve_below_of_locate (isWellNamed_splitBase split) hnames located
    rwa [List.append_nil, Path.below, List.append_nil] at hresolve
  | below split _ _ located =>
    exact resolve_below_of_locate (isWellNamed_splitBase split) hnames located

/-- With the rules that always apply, a file that is not left out is in no folder that is. -/
lemma Sought.entersAbove (h : Sought compile w rules pattern p place names) (hw : w.root.IsProper)
    (hrules : DefaultRules rules) : rules.EntersAbove names := by
  rintro folder below rfl hfolder hbelow
  have hnames := h.isEntryName hw
  have hkept : rules.selects (Selection.relativeText (folder ++ below)) = false := by
    generalize hall : folder ++ below = all at h
    cases h with
    | named => exact absurd (List.append_eq_nil_iff.1 hall).1 hfolder
    | below split pattern_ne compiled located names_ne hasFile selected kept => exact kept
  rw [← Bool.not_eq_true]
  intro hselected
  rw [hrules.selects_below hfolder hbelow hnames hselected] at hkept
  cases hkept

/-- The place of a found file tells its name. -/
lemma Sought.apply (h : Sought compile w rules pattern p place names) (hw : w.root.IsProper)
    (naming : Naming) : naming.apply w p = naming.nameOf p place := by
  cases naming with
  | asFound => rfl
  | absolute => exact congrArg Path.absolute (h.resolve hw)

end Patterns

/-! ## Lists of patterns -/

section Runs

variable {α β ε : Type} {f : α → Except ε β} {l : List α} {bs : List β}

/-- A list is gone through to its end when nothing of it fails. -/
lemma exists_mapM_iff : (∃ bs, l.mapM f = .ok bs) ↔ ∀ a ∈ l, ∃ b, f a = .ok b := by
  induction l with
  | nil => exact iff_of_true ⟨[], rfl⟩ (List.forall_mem_nil _)
  | cons a l ih =>
    rw [List.forall_mem_cons, ← ih, List.mapM_cons]
    rcases f a with e | b
    · refine iff_of_false ?_ ?_
      · rintro ⟨bs, h⟩
        cases h
      · rintro ⟨⟨b, h⟩, -⟩
        cases h
    · rcases l.mapM f with e | bs
      · refine iff_of_false ?_ ?_
        · rintro ⟨bs, h⟩
          cases h
        · rintro ⟨-, bs, h⟩
          cases h
      · exact iff_of_true ⟨b :: bs, rfl⟩ ⟨⟨b, rfl⟩, bs, rfl⟩

lemma mem_of_mapM (h : l.mapM f = .ok bs) {b : β} : b ∈ bs ↔ ∃ a ∈ l, f a = .ok b := by
  induction l generalizing bs with
  | nil =>
    cases h
    simp
  | cons a l ih =>
    rw [List.mapM_cons] at h
    rcases hfirst : f a with e | b'
    · rw [hfirst] at h
      cases h
    · rcases hrest : l.mapM f with e | bs'
      · rw [hfirst, hrest] at h
        cases h
      · rw [hfirst, hrest] at h
        cases h
        rw [List.mem_cons, ih hrest]
        simp [hfirst, eq_comm]

end Runs

section Discovered

variable {compile : IgnoreCompiler} {w : Workspace} {rules : IgnoreRules} {naming : Naming}
  {ignore patterns : List String} {files : List Path}

lemma discover_eq_ok_iff : discover compile w naming ignore patterns = .ok files ↔
    ∃ rules found, compile (defaultIgnores ++ ignore) = .ok rules ∧
      (patterns.flatMap expandBraces).mapM (candidates compile w rules) = .ok found ∧
      Path.sortUnique (found.flatten.map (naming.apply w)) = files := by
  unfold discover
  rcases compile (defaultIgnores ++ ignore) with e | rules
  · refine iff_of_false ?_ ?_
    · intro h
      cases h
    · rintro ⟨_, _, h, -⟩
      cases h
  · rcases hfound : (patterns.flatMap expandBraces).mapM (candidates compile w rules) with e | found
    · refine iff_of_false ?_ ?_
      · intro h
        simp only [bind, Except.bind, hfound] at h
        cases h
      · rintro ⟨_, _, h, hfound', -⟩
        cases h
        rw [hfound] at hfound'
        cases hfound'
    · simp [bind, Except.bind, pure, Except.pure, hfound]

/-- Files are found, if only none, unless the compiler refuses a line. -/
lemma exists_discover_iff : (∃ files, discover compile w naming ignore patterns = .ok files) ↔
    (∃ rules, compile (defaultIgnores ++ ignore) = .ok rules) ∧
      ∀ pattern ∈ patterns, ∀ e ∈ expandBraces pattern, IsAccepted compile e := by
  have haccepted (rules : IgnoreRules) :
      (∃ found, (patterns.flatMap expandBraces).mapM (candidates compile w rules) = .ok found) ↔
        ∀ pattern ∈ patterns, ∀ e ∈ expandBraces pattern, IsAccepted compile e := by
    rw [exists_mapM_iff]
    simp only [exists_candidates_iff, List.forall_mem_flatMap]
  simp only [discover_eq_ok_iff]
  constructor
  · rintro ⟨_, rules, found, hrules, hfound, rfl⟩
    exact ⟨⟨rules, hrules⟩, (haccepted rules).1 ⟨found, hfound⟩⟩
  · rintro ⟨⟨rules, hrules⟩, hpatterns⟩
    obtain ⟨found, hfound⟩ := (haccepted rules).2 hpatterns
    exact ⟨_, rules, found, hrules, hfound, rfl⟩

/-- What is listed is found by one of the patterns, before it is put into order. -/
lemma exists_of_discover (hw : w.root.IsProper)
    (hrules : compile (defaultIgnores ++ ignore) = .ok rules)
    (h : discover compile w naming ignore patterns = .ok files) :
    ∃ found, files = Path.sortUnique found ∧
      (∀ p ∈ found, ∀ q ∈ found, p.key = q.key → p = q) ∧
      ∀ f, f ∈ found ↔ ∃ pattern ∈ patterns, ∃ e ∈ expandBraces pattern, ∃ p place names,
        Sought compile w rules e p place names ∧ rules.EntersAbove names ∧ f = naming.nameOf p place := by
  obtain ⟨rules', found, hrules', hfound, rfl⟩ := discover_eq_ok_iff.1 h
  cases hrules.symm.trans hrules'
  have hmem : ∀ f, f ∈ found.flatten.map (naming.apply w) ↔
      ∃ pattern ∈ patterns, ∃ e ∈ expandBraces pattern, ∃ p place names,
        Sought compile w rules e p place names ∧ rules.EntersAbove names ∧
          f = naming.nameOf p place := by
    intro f
    rw [List.mem_map]
    constructor
    · rintro ⟨p, hp, rfl⟩
      obtain ⟨files, hfiles, hp⟩ := List.mem_flatten.1 hp
      obtain ⟨e, he, hcandidates⟩ := (mem_of_mapM hfound).1 hfiles
      obtain ⟨pattern, hpattern, he⟩ := List.mem_flatMap.1 he
      obtain ⟨place, names, hsought, henters⟩ := (mem_candidates_iff hw hcandidates).1 hp
      exact ⟨pattern, hpattern, e, he, p, place, names, hsought, henters, hsought.apply hw naming⟩
    · rintro ⟨pattern, hpattern, e, he, p, place, names, hsought, henters, rfl⟩
      have he := List.mem_flatMap.2 ⟨pattern, hpattern, he⟩
      obtain ⟨files, hcandidates⟩ := exists_mapM_iff.1 ⟨found, hfound⟩ e he
      have hp := (mem_candidates_iff hw hcandidates).2 ⟨place, names, hsought, henters⟩
      exact ⟨p, List.mem_flatten.2 ⟨files, (mem_of_mapM hfound).2 ⟨e, he, hcandidates⟩, hp⟩,
        hsought.apply hw naming⟩
  refine ⟨_, rfl, ?_, hmem⟩
  intro p hp q hq hkey
  obtain ⟨_, _, _, _, p, place, _, hsought, -, rfl⟩ := (hmem p).1 hp
  obtain ⟨_, _, _, _, q, place', _, hsought', -, rfl⟩ := (hmem q).1 hq
  cases naming with
  | asFound => exact Path.key_injective (hsought.isWellNamed hw) (hsought'.isWellNamed hw) hkey
  | absolute => exact congrArg Path.absolute (List.cons.inj hkey).2

/-- **The files that are found**, whatever lines are compiled to.  There is a list of them unless a line
is refused.  The list is increasing, and it holds exactly the files that an expanded pattern asks for and
that are in no folder that is left out.  Neither the order of the patterns matters nor how often one is
given.  Without ignore lines of one's own the condition on the folders follows, if those lines that always
apply are understood as they are meant. -/
theorem discover_exact (compile : IgnoreCompiler) (w : Workspace) (hw : w.root.IsProper)
    (naming : Naming) (ignore patterns : List String) :
    ((∃ files, discover compile w naming ignore patterns = .ok files) ↔
      (∃ rules, compile (defaultIgnores ++ ignore) = .ok rules) ∧
        ∀ pattern ∈ patterns, ∀ e ∈ expandBraces pattern, IsAccepted compile e) ∧
    ∀ rules, compile (defaultIgnores ++ ignore) = .ok rules →
      (∀ files, discover compile w naming ignore patterns = .ok files →
        (files.Pairwise fun p q => p.key < q.key) ∧
        (∀ f, f ∈ files ↔
          ∃ pattern ∈ patterns, ∃ e ∈ expandBraces pattern, ∃ p place names,
            Sought compile w rules e p place names ∧ rules.EntersAbove names ∧
              f = naming.nameOf p place) ∧
        ∀ patterns', (∀ pattern, pattern ∈ patterns' ↔ pattern ∈ patterns) →
          discover compile w naming ignore patterns' = .ok files) ∧
      (KnowsDefaults compile → ignore = [] →
        ∀ e p place names, Sought compile w rules e p place names → rules.EntersAbove names) := by
  refine ⟨exists_discover_iff, fun rules hrules => ⟨fun files hfiles => ?_, ?_⟩⟩
  · obtain ⟨found, rfl, hkey, hfound⟩ := exists_of_discover hw hrules hfiles
    obtain ⟨hincreasing, hmem⟩ := Path.sortUnique_spec hkey
    refine ⟨hincreasing, fun f => by rw [hmem, hfound], fun patterns' hsame => ?_⟩
    obtain ⟨files', hfiles'⟩ : ∃ files', discover compile w naming ignore patterns' = .ok files' := by
      have haccepted := exists_discover_iff.1 ⟨_, hfiles⟩
      exact exists_discover_iff.2 ⟨haccepted.1, fun pattern hpattern =>
        haccepted.2 pattern ((hsame pattern).1 hpattern)⟩
    obtain ⟨found', rfl, -, hfound'⟩ := exists_of_discover hw hrules hfiles'
    have hsorted : Path.sortUnique found' = Path.sortUnique found := by
      refine Path.sortUnique_congr hkey fun p => ?_
      rw [hfound', hfound]
      simp only [hsame]
    rw [hfiles', hsorted]
  · rintro ⟨rules', hrules', hdefaults⟩ rfl e p place names hsought
    rw [List.append_nil, hrules'] at hrules
    cases hrules
    exact hsought.entersAbove hw hdefaults

/-- A workspace with a folder of sources, and with a package that is installed there. -/
def packagedSources : Workspace where
  root := .folder [("src", .folder
    [("a.ts", .file "".toUTF8), ("node_modules", .folder [("b.ts", .file "".toUTF8)])])]
  cwd := []

/-- The file of the package is not found, although the pattern spans folders. -/
theorem discover_exact_of_packagedSources :
    packagedSources.root.IsProper ∧ KnowsDefaults compileIgnores ∧
      ∃ files, discover compileIgnores packagedSources .absolute [] ["src/**/*.ts"] = .ok files ∧
        discover compileIgnores packagedSources .absolute [] ["src/**/*.ts", "src/**/*.ts"] = .ok files ∧
        Path.absolute ["src", "a.ts"] ∈ files ∧
        Path.absolute ["src", "node_modules", "b.ts"] ∉ files := by
  have hproper : packagedSources.root.IsProper := by
    refine .folder (by decide) (by decide) (List.forall_mem_singleton.2 ?_)
    refine .folder (by decide) (by decide) (List.forall_mem_cons.2 ⟨.file _, ?_⟩)
    refine List.forall_mem_singleton.2 (.folder (by decide) (by decide) ?_)
    exact List.forall_mem_singleton.2 (.file _)
  have hexpand : expandBraces "src/**/*.ts" = ["src/**/*.ts"] := by decide +kernel
  have hsplit : splitBase "src/**/*.ts" = (⟨false, ["src"]⟩, "**/*.ts") := by decide +kernel
  have hlocate : packagedSources.locate ⟨false, ["src"]⟩ = .ok ["src"] := rfl
  have hrules : compileIgnores (defaultIgnores ++ []) = .ok ⟨IgnoreLine.select defaultLines⟩ := by
    rw [List.append_nil, compileIgnores_defaultIgnores]
  let line : IgnoreLine :=
    ⟨true, true, .foldersAbove :: .run .inName :: (exactly ".ts" ++ [.slashOrEnd])⟩
  have hcompiled : compileIgnores ["/" ++ "**/*.ts"] = .ok ⟨IgnoreLine.select [line]⟩ := by
    have hline : ["/" ++ "**/*.ts"].mapM IgnoreLine.compile = .ok [some line] := by decide +kernel
    rw [compileIgnores, hline]
    rfl
  have hsought : Sought compileIgnores packagedSources ⟨IgnoreLine.select defaultLines⟩ "src/**/*.ts"
      ⟨false, ["src", "a.ts"]⟩ ["src", "a.ts"] ["a.ts"] := by
    refine .below hsplit (by decide) hcompiled hlocate (by decide) ⟨_, rfl⟩ ?_ select_defaultLines
    have hname : IsEntryName "a.ts" := by decide
    have hchars : (Selection.relativeText ["a.ts"]).toList = "a.ts".toList ++ [] := by decide
    show IgnoreLine.select [line] (Selection.relativeText ["a.ts"]) = true
    rw [select_of_entryName hname hchars, hchars]
    simp [line, IgnoreLine.fits, fitsHere, exactly, CharTest.holds, atEnd]
  obtain ⟨hexists, hexact⟩ :=
    discover_exact compileIgnores packagedSources hproper .absolute [] ["src/**/*.ts"]
  obtain ⟨files, hfiles⟩ := hexists.2 ⟨⟨_, hrules⟩, by
    rintro pattern hpattern e he -
    cases List.mem_singleton.1 hpattern
    rw [hexpand] at he
    cases List.mem_singleton.1 he
    rw [hsplit]
    exact ⟨_, hcompiled⟩⟩
  obtain ⟨hlists, hfolders⟩ := hexact _ hrules
  obtain ⟨-, hmem, hrepeated⟩ := hlists files hfiles
  refine ⟨hproper, knowsDefaults_compileIgnores, files, hfiles, hrepeated _ (by simp), ?_, ?_⟩
  · have henters := hfolders knowsDefaults_compileIgnores rfl _ _ _ _ hsought
    exact (hmem _).2 ⟨_, List.mem_singleton_self _, _, hexpand ▸ List.mem_singleton_self _,
      _, _, _, hsought, henters, rfl⟩
  · intro hfound
    obtain ⟨pattern, hpattern, e, he, p, place, names, hpackaged, -, hplace⟩ := (hmem _).1 hfound
    cases List.mem_singleton.1 hpattern
    rw [hexpand] at he
    cases List.mem_singleton.1 he
    cases hpackaged with
    | named split =>
      have hrest : "**/*.ts" = "" := congrArg Prod.snd (hsplit.symm.trans split)
      exact absurd hrest (by decide)
    | below split pattern_ne compiled located names_ne hasFile selected kept =>
      cases hsplit.symm.trans split
      cases hlocate.symm.trans located
      obtain rfl : ["node_modules", "b.ts"] = _ := List.cons.inj (congrArg Path.names hplace) |>.2
      have hpackage : FitsPackage (Selection.relativeText ["node_modules", "b.ts"]).toList :=
        ⟨[], "b.ts".toList, by decide, .inl rfl⟩
      have hselected := (defaultRules_select.file ["node_modules", "b.ts"] (by decide)
        (by decide)).2 (.inr (.inl hpackage))
      rw [hselected] at kept
      cases kept

end Discovered

end RouteScribe.Files
