import Mathlib.Tactic
import RouteScribe.Files.Discovery
import RouteScribe.Proofs.Files.Names

/-!
# The ignore lines that always apply

What the three lines fit is said by the text of a path alone (`FitsDefaults`), and rules that select what
they fit are `DefaultRules`, whatever compiler they come from.  Each of the lines selects, with a folder,
everything below it (`DefaultRules.selects_below`): what it fits in the text of the folder, which ends in a
slash, it also fits when the text goes on.  The end of the text could matter only to a line that reads the
last slash as a part of a name, and none does.

The rules that `compileIgnores` makes of the lines are of this kind (`knowsDefaults_compileIgnores`): each
piece of a compiled line fits a part of the text.
-/

namespace RouteScribe.Files

/-! ## What the lines fit -/

/-- Nothing, or the text of some folders with the slash after them.  Folders with a line feed in their
names do not count. -/
def AreFolders (above : List Char) : Prop :=
  above = [] ∨ ∃ names, names ≠ [] ∧ '\n' ∉ names ∧ above = names ++ ['/']

/-- A name ends before such a text: it is empty up to a last line feed, or starts with a slash. -/
def EndsName (after : List Char) : Prop :=
  after = [] ∨ after = ['\n'] ∨ ∃ below, after = '/' :: below

/-- The text of a path goes through a name that ends like that of a declaration file. -/
def FitsDeclaration (path : List Char) : Prop :=
  ∃ above name after, path = above ++ (name ++ (".d.ts".toList ++ after)) ∧
    AreFolders above ∧ '/' ∉ name ∧ EndsName after

/-- The text of a path goes into a folder of installed packages. -/
def FitsPackage (path : List Char) : Prop :=
  ∃ above below, path = above ++ ("node_modules/".toList ++ below) ∧ AreFolders above

/-- The text of a path goes through a name that starts with a point. -/
def FitsHidden (path : List Char) : Prop :=
  ∃ above name after, path = above ++ ('.' :: name ++ after) ∧
    AreFolders above ∧ '/' ∉ name ∧ EndsName after

/-- One of the lines that always apply fits the text of a path. -/
def FitsDefaults (path : List Char) : Prop :=
  FitsDeclaration path ∨ FitsPackage path ∨ FitsHidden path

/-- Rules that select, among the texts of files and folders, those that one of the lines fits that always
apply. -/
structure DefaultRules (rules : IgnoreRules) : Prop where
  file : ∀ names, names ≠ [] → (∀ n ∈ names, IsEntryName n) →
    (rules.selects (Selection.relativeText names) = true ↔
      FitsDefaults (Selection.relativeText names).toList)
  folder : ∀ names, names ≠ [] → (∀ n ∈ names, IsEntryName n) →
    (rules.selects (Selection.relativeText names ++ "/") = true ↔
      FitsDefaults ((Selection.relativeText names).toList ++ ['/']))

/-- The compiler accepts the lines that always apply, and its rules select what the lines fit. -/
def KnowsDefaults (compile : IgnoreCompiler) : Prop :=
  ∃ rules, compile defaultIgnores = .ok rules ∧ DefaultRules rules

/-! ## What is below a folder -/

section Below

variable {folder below start after : List Char}

/-- What ends a name in the text of a folder also ends it when the text goes on, unless the name itself
holds the last slash. -/
lemma EndsName.append (h : EndsName after) (hlast : start.getLast? ≠ some '/')
    (hfolder : folder ++ ['/'] = start ++ after) : EndsName (after ++ below) := by
  have hend : (start ++ after).getLast? = some '/' := by
    rw [← hfolder, List.getLast?_append]
    rfl
  rcases h with rfl | rfl | ⟨rest, rfl⟩
  · rw [List.append_nil] at hend
    exact absurd hend hlast
  · simp at hend
  · exact .inr (.inr ⟨rest ++ below, rfl⟩)

lemma FitsDeclaration.append (h : FitsDeclaration (folder ++ ['/'])) :
    FitsDeclaration (folder ++ ['/'] ++ below) := by
  obtain ⟨above, name, after, hpath, habove, hname, hafter⟩ := h
  refine ⟨above, name, after ++ below, ?_, habove, hname, ?_⟩
  · rw [hpath]
    simp only [List.append_assoc]
  · have hlast : (above ++ (name ++ ".d.ts".toList)).getLast? ≠ some '/' := by simp
    apply hafter.append hlast
    rw [hpath]
    simp only [List.append_assoc]

lemma FitsPackage.append (h : FitsPackage folder) : FitsPackage (folder ++ below) := by
  obtain ⟨above, rest, hpath, habove⟩ := h
  refine ⟨above, rest ++ below, ?_, habove⟩
  rw [hpath]
  simp only [List.append_assoc]

lemma FitsHidden.append (h : FitsHidden (folder ++ ['/'])) :
    FitsHidden (folder ++ ['/'] ++ below) := by
  obtain ⟨above, name, after, hpath, habove, hname, hafter⟩ := h
  refine ⟨above, name, after ++ below, ?_, habove, hname, ?_⟩
  · rw [hpath]
    simp only [List.append_assoc]
  · have hlast : (above ++ '.' :: name).getLast? ≠ some '/' := by
      rw [List.getLast?_append_of_ne_nil _ (List.cons_ne_nil _ _)]
      intro hslash
      rcases List.mem_cons.1 (List.mem_of_getLast? hslash) with heq | hmem
      · exact absurd heq (by decide)
      · exact hname hmem
    apply hafter.append hlast
    rw [hpath]
    simp only [List.append_assoc]

lemma FitsDefaults.append (h : FitsDefaults (folder ++ ['/'])) :
    FitsDefaults (folder ++ ['/'] ++ below) :=
  h.imp FitsDeclaration.append (Or.imp FitsPackage.append FitsHidden.append)

end Below

lemma relativeText_append {folder below : List String} (hfolder : folder ≠ []) (hbelow : below ≠ []) :
    Selection.relativeText (folder ++ below) =
      Selection.relativeText folder ++ "/" ++ Selection.relativeText below :=
  String.intercalate_append_of_ne_nil hfolder hbelow

/-- **A folder that is left out by the lines that always apply takes along all that is below it.** -/
theorem DefaultRules.selects_below {rules : IgnoreRules} (hrules : DefaultRules rules)
    {folder below : List String} (hfolder : folder ≠ []) (hbelow : below ≠ [])
    (hnames : ∀ n ∈ folder ++ below, IsEntryName n)
    (h : rules.selects (Selection.relativeText folder ++ "/") = true) :
    rules.selects (Selection.relativeText (folder ++ below)) = true := by
  have hfits := (hrules.folder folder hfolder fun n hn =>
    hnames n (List.mem_append_left _ hn)).1 h
  have htext : (Selection.relativeText (folder ++ below)).toList =
      (Selection.relativeText folder).toList ++ ['/'] ++ (Selection.relativeText below).toList := by
    rw [relativeText_append hfolder hbelow]
    simp
  rw [hrules.file _ (List.append_ne_nil_of_left_ne_nil hfolder _) hnames, htext]
  exact hfits.append

/-! ## What a compiled line fits -/

section Pieces

variable {t : CharTest} {rest : List Piece} {s : List Char}

lemma fitsHere_nil : fitsHere [] s = true := by rw [fitsHere]

lemma fitsHere_one_iff : fitsHere (.one t :: rest) s = true ↔
    ∃ c cs, s = c :: cs ∧ t.holds c = true ∧ fitsHere rest cs = true := by
  cases s with
  | nil => simp [fitsHere]
  | cons c cs => simp [fitsHere]

lemma fitsHere_run_iff : fitsHere (.run t :: rest) s = true ↔
    ∃ part cs, s = part ++ cs ∧ (∀ c ∈ part, t.holds c = true) ∧ fitsHere rest cs = true := by
  induction s with
  | nil =>
    rw [fitsHere, Bool.or_false]
    constructor
    · intro hrest
      exact ⟨[], [], rfl, List.forall_mem_nil _, hrest⟩
    · rintro ⟨part, cs, hs, -, hrest⟩
      obtain ⟨rfl, rfl⟩ := List.append_eq_nil_iff.1 hs.symm
      exact hrest
  | cons c s ih =>
    rw [fitsHere, Bool.or_eq_true, Bool.and_eq_true, ih]
    constructor
    · rintro (hrest | ⟨hc, part, cs, rfl, hpart, hrest⟩)
      · exact ⟨[], c :: s, rfl, List.forall_mem_nil _, hrest⟩
      · exact ⟨c :: part, cs, rfl, List.forall_mem_cons.2 ⟨hc, hpart⟩, hrest⟩
    · rintro ⟨- | ⟨d, part⟩, cs, hs, hpart, hrest⟩
      · exact .inl (hs ▸ hrest)
      · obtain ⟨rfl, rfl⟩ := List.cons.inj hs
        obtain ⟨hc, hpart⟩ := List.forall_mem_cons.1 hpart
        exact .inr ⟨hc, part, cs, rfl, hpart, hrest⟩

/-- The pieces that fit a text only. -/
def exactly (text : String) : List Piece := text.toList.map fun c => .one (.exactly c)

lemma fitsHere_exactly_iff {text : String} : fitsHere (exactly text ++ rest) s = true ↔
    ∃ cs, s = text.toList ++ cs ∧ fitsHere rest cs = true := by
  rw [exactly]
  induction text.toList generalizing s with
  | nil => simp
  | cons c cs ih =>
    rw [List.map_cons, List.cons_append, fitsHere_one_iff]
    constructor
    · rintro ⟨d, ds, rfl, hd, hrest⟩
      obtain ⟨after, rfl, hafter⟩ := ih.1 hrest
      obtain rfl : d = c := by simpa [CharTest.holds] using hd
      exact ⟨after, rfl, hafter⟩
    · rintro ⟨after, rfl, hrest⟩
      have hcs := ih.2 ⟨after, rfl, hrest⟩
      exact ⟨c, cs ++ after, rfl, by simp [CharTest.holds], hcs⟩

lemma fitsHere_foldersAbove_iff : fitsHere (.foldersAbove :: rest) s = true ↔
    ∃ above cs, s = above ++ cs ∧ AreFolders above ∧ fitsHere rest cs = true := by
  have hany {c : Char} : CharTest.any.holds c = true ↔ c ≠ '\n' := by simp [CharTest.holds]
  rw [fitsHere, Bool.or_eq_true]
  constructor
  · rintro (hrest | hfolders)
    · exact ⟨[], s, rfl, .inl rfl, hrest⟩
    · obtain ⟨c, _, rfl, hc, hmore⟩ := fitsHere_one_iff.1 hfolders
      obtain ⟨part, _, rfl, hpart, hslash⟩ := fitsHere_run_iff.1 hmore
      obtain ⟨d, cs, rfl, hd, hrest⟩ := fitsHere_one_iff.1 hslash
      obtain rfl : d = '/' := by simpa [CharTest.holds] using hd
      refine ⟨c :: part ++ ['/'], cs, by simp, .inr ⟨c :: part, List.cons_ne_nil _ _, ?_, rfl⟩, hrest⟩
      intro hbreak
      rcases List.mem_cons.1 hbreak with hbreak | hbreak
      · exact hany.1 hc hbreak.symm
      · exact hany.1 (hpart _ hbreak) rfl
  · rintro ⟨above, cs, rfl, rfl | ⟨- | ⟨c, part⟩, hne, hbreak, rfl⟩, hrest⟩
    · exact .inl hrest
    · exact absurd rfl hne
    · obtain ⟨hc, hpart⟩ := not_or.1 (List.mem_cons.not.1 hbreak)
      refine .inr (fitsHere_one_iff.2 ⟨c, part ++ ('/' :: cs), by simp, hany.2 fun h => hc h.symm, ?_⟩)
      refine fitsHere_run_iff.2 ⟨part, '/' :: cs, rfl, fun d hd => hany.2 ?_, ?_⟩
      · rintro rfl
        exact hpart hd
      · exact fitsHere_one_iff.2 ⟨'/', cs, rfl, by decide, hrest⟩

lemma fitsHere_slashOrEnd_iff : fitsHere [.slashOrEnd] s = true ↔ EndsName s := by
  have hend : (atEnd s && fitsHere [] s) = true ↔ s = [] ∨ s = ['\n'] := by
    rw [fitsHere_nil, Bool.and_true]
    simp [atEnd]
  by_cases hslash : ∃ below, s = '/' :: below
  · obtain ⟨below, rfl⟩ := hslash
    rw [fitsHere, Bool.or_eq_true]
    exact iff_of_true (.inr fitsHere_nil) (.inr (.inr ⟨below, rfl⟩))
  · rw [fitsHere, Bool.or_false, hend]
    · exact ⟨fun h => h.elim .inl fun h => .inr (.inl h),
        fun h => h.imp_right fun h => h.resolve_right hslash⟩
    · intro below hs
      exact hslash ⟨below, hs⟩

end Pieces

/-! ## The compiled lines -/

section Compiled

/-- The lines that always apply, compiled. -/
def defaultLines : List IgnoreLine :=
  [⟨true, true, .foldersAbove :: .run .inName :: (exactly ".d.ts" ++ [.slashOrEnd])⟩,
    ⟨true, true, .foldersAbove :: exactly "node_modules/"⟩,
    ⟨true, true, .foldersAbove :: (exactly "." ++ [.run .inName, .slashOrEnd])⟩]

variable {n : String} {names : List String}

lemma inName_iff {c : Char} : CharTest.inName.holds c = true ↔ c ≠ '/' := by simp [CharTest.holds]

/-- Each of the compiled lines fits what it is to fit. -/
lemma fitsHere_defaultLines_iff (path : List Char) :
    (∃ l ∈ defaultLines, fitsHere l.pieces path = true) ↔ FitsDefaults path := by
  have hname (part : List Char) : (∀ c ∈ part, CharTest.inName.holds c = true) ↔ '/' ∉ part := by
    simp only [inName_iff]
    exact ⟨fun h hmem => h _ hmem rfl, fun h c hc heq => h (heq ▸ hc)⟩
  have hdeclaration : fitsHere (.foldersAbove :: .run .inName :: (exactly ".d.ts" ++ [.slashOrEnd])) path =
      true ↔ FitsDeclaration path := by
    simp only [fitsHere_foldersAbove_iff, fitsHere_run_iff, fitsHere_exactly_iff,
      fitsHere_slashOrEnd_iff, hname]
    constructor
    · rintro ⟨above, _, rfl, habove, name, _, rfl, hname, after, rfl, hafter⟩
      exact ⟨above, name, after, rfl, habove, hname, hafter⟩
    · rintro ⟨above, name, after, rfl, habove, hname, hafter⟩
      exact ⟨above, _, rfl, habove, name, _, rfl, hname, after, rfl, hafter⟩
  have hpackage : fitsHere (.foldersAbove :: exactly "node_modules/") path = true ↔
      FitsPackage path := by
    have hwhole : exactly "node_modules/" = exactly "node_modules/" ++ [] := (List.append_nil _).symm
    rw [hwhole]
    simp only [fitsHere_foldersAbove_iff, fitsHere_exactly_iff, fitsHere_nil, and_true]
    constructor
    · rintro ⟨above, _, rfl, habove, below, rfl⟩
      exact ⟨above, below, rfl, habove⟩
    · rintro ⟨above, below, rfl, habove⟩
      exact ⟨above, _, rfl, habove, below, rfl⟩
  have hhidden : fitsHere (.foldersAbove :: (exactly "." ++ [.run .inName, .slashOrEnd])) path = true ↔
      FitsHidden path := by
    simp only [fitsHere_foldersAbove_iff, fitsHere_exactly_iff, fitsHere_run_iff,
      fitsHere_slashOrEnd_iff, hname]
    constructor
    · rintro ⟨above, _, rfl, habove, _, rfl, name, after, rfl, hname, hafter⟩
      exact ⟨above, name, after, rfl, habove, hname, hafter⟩
    · rintro ⟨above, name, after, rfl, habove, hname, hafter⟩
      exact ⟨above, _, rfl, habove, _, rfl, name, after, rfl, hname, hafter⟩
  rw [FitsDefaults, ← hdeclaration, ← hpackage, ← hhidden]
  simp [defaultLines]

lemma relativeText_cons (n : String) (ns : List String) :
    ∃ tail, (Selection.relativeText (n :: ns)).toList = n.toList ++ tail := by
  cases ns with
  | nil => exact ⟨[], by simp [Selection.relativeText]⟩
  | cons m ns =>
    refine ⟨'/' :: (Selection.relativeText (m :: ns)).toList, ?_⟩
    rw [← List.singleton_append, relativeText_append (by simp) (by simp)]
    simp [Selection.relativeText]

/-- No character of a text that starts with the name of an entry is taken off before the lines are
tried: it starts with neither a slash nor a point and a slash. -/
lemma select_of_entryName {lines : List IgnoreLine} {path : String} {tail : List Char}
    (hn : IsEntryName n) (hpath : path.toList = n.toList ++ tail) :
    IgnoreLine.select lines path = match lines.reverse.find? (·.fits path.toList) with
      | some l => l.selects
      | none => false := by
  obtain ⟨hne, hdot, -, hslash⟩ := hn
  unfold IgnoreLine.select
  split
  case h_1 cs hcs =>
    rcases hchars : n.toList with - | ⟨c, ds⟩
    · exact absurd (String.toList_eq_nil_iff.1 hchars) hne
    · rw [hcs, hchars] at hpath
      cases hpath
      simp [hchars] at hslash
  case h_2 cs hcs =>
    rcases hchars : n.toList with - | ⟨c, - | ⟨d, ds⟩⟩
    · exact absurd (String.toList_eq_nil_iff.1 hchars) hne
    · rw [hcs, hchars] at hpath
      cases hpath
      exact absurd (String.toList_inj.1 hchars) hdot
    · rw [hcs, hchars] at hpath
      cases hpath
      simp [hchars] at hslash
  case h_3 => rfl

lemma select_defaultLines_iff {path : String} {tail : List Char} (hn : IsEntryName n)
    (hpath : path.toList = n.toList ++ tail) :
    IgnoreLine.select defaultLines path = true ↔ FitsDefaults path.toList := by
  have hlines : ∀ l ∈ defaultLines, l.selects = true ∧ l.anchored = true := by decide
  have hfits : ∀ l ∈ defaultLines, l.fits path.toList = fitsHere l.pieces path.toList :=
    fun l hl => if_pos (hlines l hl).2
  rw [select_of_entryName hn hpath, ← fitsHere_defaultLines_iff]
  split
  case h_2 hfind =>
    rw [List.find?_eq_none] at hfind
    refine iff_of_false Bool.false_ne_true fun ⟨l, hl, hfit⟩ => hfind l (List.mem_reverse.2 hl) ?_
    rw [hfits l hl, hfit]
  case h_1 l hfind =>
    have hl := List.mem_reverse.1 (List.mem_of_find?_eq_some hfind)
    have hfit := List.find?_some hfind
    rw [hfits l hl] at hfit
    exact iff_of_true (hlines l hl).1 ⟨l, hl, hfit⟩

/-- The lines that always apply do not select a plain name. -/
lemma select_defaultLines : IgnoreLine.select defaultLines "a.ts" = false := by
  have hname : IsEntryName "a.ts" := by decide
  have hchars : "a.ts".toList = "a.ts".toList ++ [] := rfl
  rw [Bool.eq_false_iff, Ne, select_defaultLines_iff hname hchars, ← fitsHere_defaultLines_iff]
  simp [defaultLines, exactly, fitsHere, CharTest.holds, atEnd]

lemma compileIgnores_defaultIgnores :
    compileIgnores defaultIgnores = .ok ⟨IgnoreLine.select defaultLines⟩ := by
  have hlines : defaultIgnores.mapM IgnoreLine.compile = .ok (defaultLines.map some) := by
    decide +kernel
  rw [compileIgnores, hlines]
  rfl

lemma defaultRules_select : DefaultRules ⟨IgnoreLine.select defaultLines⟩ where
  file := by
    rintro (- | ⟨n, ns⟩) hne hnames
    · exact absurd rfl hne
    · obtain ⟨tail, htail⟩ := relativeText_cons n ns
      exact select_defaultLines_iff (hnames n List.mem_cons_self) htail
  folder := by
    rintro (- | ⟨n, ns⟩) hne hnames
    · exact absurd rfl hne
    · obtain ⟨tail, htail⟩ := relativeText_cons n ns
      have htext : (Selection.relativeText (n :: ns) ++ "/").toList =
          (Selection.relativeText (n :: ns)).toList ++ ['/'] := String.toList_append
      have hstart : (Selection.relativeText (n :: ns) ++ "/").toList = n.toList ++ (tail ++ ['/']) := by
        rw [htext, htail, List.append_assoc]
      show IgnoreLine.select defaultLines _ = true ↔ _
      rw [select_defaultLines_iff (hnames n List.mem_cons_self) hstart, htext]

/-- **The compiler that is in use selects what the lines fit that always apply.** -/
theorem knowsDefaults_compileIgnores : KnowsDefaults compileIgnores :=
  ⟨_, compileIgnores_defaultIgnores, defaultRules_select⟩

end Compiled

end RouteScribe.Files
