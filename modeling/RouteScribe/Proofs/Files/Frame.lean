import Mathlib.Tactic
import RouteScribe.Files.Tree

/-!
# What writing changes

A tree is looked at through its regular files: `fileAt` gives the bytes of the file at a place, and
nothing where there is a folder or nothing.  Making folders leaves this view as it is
(`Workspace.sameFiles_makeFolders`), and writing a file changes it at the place of that file only
(`Workspace.onlyWrites_of_writeBytes`).  A text that cannot be encoded leaves the file empty
(`Workspace.writeText_cases`).

Neither takes a folder away, so a path that leads to a place still does afterwards; it is in the tree
that is left that the place of the written file is named.
-/

namespace RouteScribe.Files

namespace Entry

variable {e e' : Entry} {entries : List (String × Entry)} {place other : List String}
  {n m : String} {ns : List String} {content : ByteArray}

/-- The bytes of the regular file at a place, if there is one. -/
def fileAt (e : Entry) (place : List String) : Option ByteArray :=
  match e.get? place with
  | some (.file content) => some content
  | _ => none

/-- A folder stands at a place. -/
def HasFolder (e : Entry) (place : List String) : Prop := ∃ entries, e.get? place = some (.folder entries)

/-! ## Entries of a folder -/

lemma lookup_putIn :
    (putIn n e entries).lookup m = if m = n then some e else entries.lookup m := by
  induction entries with
  | nil =>
    by_cases h : m = n
    · simp [putIn, h]
    · simp [putIn, List.lookup_cons, h, beq_eq_false_iff_ne.2 h]
  | cons p rest ih =>
    obtain ⟨k, old⟩ := p
    rw [putIn]
    by_cases hk : k = n
    · subst hk
      rw [if_pos rfl]
      by_cases h : m = k
      · simp [h]
      · simp [List.lookup_cons, h, beq_eq_false_iff_ne.2 h]
    · rw [if_neg hk]
      by_cases h : m = k
      · simp [h, hk]
      · simp [List.lookup_cons, beq_eq_false_iff_ne.2 h, ih]

lemma get?_folder_cons :
    (Entry.folder entries).get? (n :: ns) = (entries.lookup n).bind fun sub => sub.get? ns := rfl

lemma get?_folder_putIn :
    (Entry.folder (putIn n e entries)).get? (m :: ns) =
      if m = n then e.get? ns else (Entry.folder entries).get? (m :: ns) := by
  rw [get?_folder_cons, lookup_putIn]
  by_cases h : m = n
  · rw [if_pos h, if_pos h]
    rfl
  · rw [if_neg h, if_neg h]
    rfl

@[simp] lemma get?_file_cons : (Entry.file content).get? (n :: ns) = none := rfl

@[simp] lemma fileAt_file_nil : (Entry.file content).fileAt [] = some content := rfl

@[simp] lemma fileAt_file_cons : (Entry.file content).fileAt (n :: ns) = none := rfl

@[simp] lemma fileAt_folder_nil : (Entry.folder entries).fileAt [] = none := rfl

lemma fileAt_folder_cons :
    (Entry.folder entries).fileAt (n :: ns) = (entries.lookup n).bind fun sub => sub.fileAt ns := by
  unfold fileAt
  rw [get?_folder_cons]
  cases entries.lookup n <;> rfl

lemma fileAt_folder_putIn :
    (Entry.folder (putIn n e entries)).fileAt (m :: ns) =
      if m = n then e.fileAt ns else (Entry.folder entries).fileAt (m :: ns) := by
  unfold fileAt
  rw [get?_folder_putIn]
  by_cases h : m = n
  · rw [if_pos h, if_pos h]
  · rw [if_neg h, if_neg h]

/-- An empty folder holds no file. -/
lemma fileAt_empty (place : List String) : (Entry.folder []).fileAt place = none := by
  cases place <;> rfl

/-! ## Making a folder -/

/-- What making a folder can do to a folder: put an empty one into it, leave it as it is, or make the
folder further down. -/
lemma exists_of_makeFolder (h : e.makeFolder (n :: ns) = .ok e') :
    ∃ entries, e = .folder entries ∧
      (e' = e ∨ entries.lookup n = none ∧ e' = .folder (putIn n (.folder []) entries) ∨
        ∃ sub sub', entries.lookup n = some sub ∧ sub.makeFolder ns = .ok sub' ∧
          e' = .folder (putIn n sub' entries)) := by
  cases e with
  | file content => cases h
  | folder entries =>
    refine ⟨entries, rfl, ?_⟩
    cases ns with
    | nil =>
      rcases hn : entries.lookup n with - | ⟨content | below⟩
      · simp only [makeFolder, hn] at h
        cases h
        exact .inr (.inl ⟨rfl, rfl⟩)
      · simp only [makeFolder, hn] at h
        cases h
      · simp only [makeFolder, hn] at h
        cases h
        exact .inl rfl
    | cons k ks =>
      rcases hn : entries.lookup n with - | sub
      · simp only [makeFolder, hn] at h
        cases h
      · simp only [makeFolder, hn] at h
        rcases hsub : sub.makeFolder (k :: ks) with o | sub'
        · rw [hsub] at h
          cases h
        · rw [hsub] at h
          cases h
          exact .inr (.inr ⟨sub, sub', rfl, hsub, rfl⟩)

/-- Making a folder changes no file. -/
lemma fileAt_makeFolder (h : e.makeFolder place = .ok e') (other : List String) :
    e'.fileAt other = e.fileAt other := by
  induction place generalizing e e' other with
  | nil =>
    cases e with
    | file content => cases h
    | folder entries =>
      cases h
      rfl
  | cons n ns ih =>
    obtain ⟨entries, rfl, rfl | ⟨hn, rfl⟩ | ⟨sub, sub', hn, hsub, rfl⟩⟩ := exists_of_makeFolder h
    · rfl
    · cases other with
      | nil => rfl
      | cons m ms =>
        rw [fileAt_folder_putIn, fileAt_folder_cons]
        by_cases hm : m = n
        · rw [if_pos hm, hm, hn, fileAt_empty]
          rfl
        · rw [if_neg hm]
    · cases other with
      | nil => rfl
      | cons m ms =>
        rw [fileAt_folder_putIn, fileAt_folder_cons]
        by_cases hm : m = n
        · rw [if_pos hm, hm, hn, ih hsub]
          rfl
        · rw [if_neg hm]

/-! ## Writing a file -/

/-- What writing a file can do to a folder: put the file into it, where no folder is, or write the file
further down. -/
lemma exists_of_write (h : e.write content (n :: ns) = .ok e') :
    ∃ entries sub', e = .folder entries ∧ e' = .folder (putIn n sub' entries) ∧
      (ns = [] ∧ sub' = .file content ∧ (∀ below, entries.lookup n ≠ some (.folder below)) ∨
        ∃ sub, entries.lookup n = some sub ∧ sub.write content ns = .ok sub') := by
  cases e with
  | file content => cases h
  | folder entries =>
    cases ns with
    | nil =>
      rcases hn : entries.lookup n with - | ⟨old | below⟩
      · simp only [write, hn] at h
        cases h
        exact ⟨entries, _, rfl, rfl, .inl ⟨rfl, rfl, by simp [hn]⟩⟩
      · simp only [write, hn] at h
        cases h
        exact ⟨entries, _, rfl, rfl, .inl ⟨rfl, rfl, by simp [hn]⟩⟩
      · simp only [write, hn] at h
        cases h
    | cons k ks =>
      rcases hn : entries.lookup n with - | sub
      · simp only [write, hn] at h
        cases h
      · simp only [write, hn] at h
        rcases hsub : sub.write content (k :: ks) with o | sub'
        · rw [hsub] at h
          cases h
        · rw [hsub] at h
          cases h
          exact ⟨entries, sub', rfl, rfl, .inr ⟨sub, hn, hsub⟩⟩

/-- The file that is written. -/
lemma fileAt_write_self (h : e.write content place = .ok e') : e'.fileAt place = some content := by
  induction place generalizing e e' with
  | nil =>
    cases e with
    | file old =>
      cases h
      rfl
    | folder entries => cases h
  | cons n ns ih =>
    obtain ⟨entries, sub', rfl, rfl, ⟨rfl, rfl, -⟩ | ⟨sub, -, hsub⟩⟩ := exists_of_write h
    · rw [fileAt_folder_putIn, if_pos rfl]
      rfl
    · rw [fileAt_folder_putIn, if_pos rfl]
      exact ih hsub

/-- Writing a file changes no other file. -/
lemma fileAt_write_of_ne (h : e.write content place = .ok e') (hne : other ≠ place) :
    e'.fileAt other = e.fileAt other := by
  induction place generalizing e e' other with
  | nil =>
    cases e with
    | file old =>
      cases h
      cases other with
      | nil => exact absurd rfl hne
      | cons m ms => rfl
    | folder entries => cases h
  | cons n ns ih =>
    obtain ⟨entries, sub', rfl, rfl, hsub⟩ := exists_of_write h
    cases other with
    | nil => rfl
    | cons m ms =>
      rw [fileAt_folder_putIn, fileAt_folder_cons]
      by_cases hm : m = n
      · subst hm
        rw [if_pos rfl]
        rcases hsub with ⟨rfl, rfl, hfile⟩ | ⟨sub, hn, hsub⟩
        · cases ms with
          | nil => exact absurd rfl hne
          | cons k ks =>
            rcases hn : entries.lookup m with - | ⟨old | below⟩
            · rfl
            · rfl
            · exact absurd hn (hfile below)
        · have hms : ms ≠ ns := fun heq => hne (heq ▸ rfl)
          rw [hn, ih hsub hms]
          rfl
      · rw [if_neg hm]

/-- Writing a file takes no folder away. -/
lemma HasFolder.write (hfolder : e.HasFolder other) (h : e.write content place = .ok e') :
    e'.HasFolder other := by
  induction place generalizing e e' other with
  | nil =>
    cases e with
    | file old =>
      cases h
      obtain ⟨entries, hget⟩ := hfolder
      cases other with
      | nil => cases hget
      | cons m ms => cases hget
    | folder entries => cases h
  | cons n ns ih =>
    obtain ⟨entries, sub', rfl, rfl, hsub⟩ := exists_of_write h
    obtain ⟨below, hget⟩ := hfolder
    cases other with
    | nil => exact ⟨_, rfl⟩
    | cons m ms =>
      unfold HasFolder
      rw [get?_folder_putIn]
      by_cases hm : m = n
      · subst hm
        rw [if_pos rfl]
        rw [get?_folder_cons] at hget
        rcases hsub with ⟨rfl, rfl, hfile⟩ | ⟨sub, hn, hsub⟩
        · obtain ⟨sub, hn, hget⟩ := Option.bind_eq_some_iff.1 hget
          cases sub with
          | folder entries' => exact absurd hn (hfile entries')
          | file old =>
            cases ms with
            | nil => cases hget
            | cons k ks => cases hget
        · rw [hn] at hget
          exact ih ⟨below, hget⟩ hsub
      · rw [if_neg hm]
        exact ⟨below, hget⟩

end Entry

/-! ## A tree with a working directory -/

namespace Workspace

variable {w w' : Workspace} {p : Path} {root root' : Entry} {place place' names : List String}
  {bytes : ByteArray}

/-- The bytes of the regular file at a place below the root, if there is one. -/
def fileAt (w : Workspace) (place : List String) : Option ByteArray := w.root.fileAt place

/-- Two workspaces have the same regular files. -/
def SameFiles (w w' : Workspace) : Prop := ∀ place, w'.fileAt place = w.fileAt place

lemma SameFiles.refl (w : Workspace) : w.SameFiles w := fun _ => rfl

lemma SameFiles.trans {w'' : Workspace} (h : w.SameFiles w') (h' : w'.SameFiles w'') :
    w.SameFiles w'' := fun place => (h' place).trans (h place)

/-- What writing and making do to a workspace: they change the tree at a place that the path leads to. -/
lemma exists_of_at {f : List String → Except Obstacle Entry}
    (h : (do
      let place ← w.locate p
      let root ← f place
      return { w with root } : Except Obstacle Workspace) = .ok w') :
    ∃ place root, w.locate p = .ok place ∧ f place = .ok root ∧ w' = { w with root } := by
  rcases hplace : w.locate p with o | place
  · rw [hplace] at h
    cases h
  · rcases hroot : f place with o | root
    · simp [hplace, hroot, bind, Except.bind] at h
    · simp only [hplace, hroot, bind, Except.bind, pure, Except.pure] at h
      cases h
      exact ⟨place, root, rfl, hroot, rfl⟩

/-! ## Making folders -/

lemma sameFiles_makeFolder (h : w.makeFolder p = .ok w') : w.SameFiles w' ∧ w'.cwd = w.cwd := by
  obtain ⟨place, root, -, hroot, rfl⟩ := exists_of_at h
  exact ⟨Entry.fileAt_makeFolder hroot, rfl⟩

/-- Making folders changes no file, also when it comes to an end halfway. -/
lemma sameFiles_makeFoldersUpward (rooted : Bool) (up : List String) (w : Workspace) :
    w.SameFiles (makeFoldersUpward rooted up w).2 ∧
      (makeFoldersUpward rooted up w).2.cwd = w.cwd := by
  induction up generalizing w with
  | nil => exact ⟨.refl w, rfl⟩
  | cons n up ih =>
    have hattempt {v v' : Workspace} (hv : w.SameFiles v ∧ v.cwd = w.cwd)
        (hmade : v.makeFolder ⟨rooted, (n :: up).reverse⟩ = .ok v') :
        w.SameFiles v' ∧ v'.cwd = w.cwd := by
      obtain ⟨hsame, hcwd⟩ := sameFiles_makeFolder hmade
      exact ⟨hv.1.trans hsame, hcwd.trans hv.2⟩
    rw [makeFoldersUpward]
    dsimp only
    split
    · rename_i w₁ hfirst
      have hfailed : w = w₁ := by
        split at hfirst
        · cases hfirst
        · exact congrArg Prod.snd hfirst
      subst hfailed
      have hup := ih w
      split
      · rename_i w₂ hw₂
        rw [hw₂] at hup
        split
        · rename_i w₃ hmade
          exact hattempt hup hmade
        · exact hup
      · exact hup
    · split
      · rename_i w₁ hmade
        exact hattempt ⟨.refl w, rfl⟩ hmade
      · exact ⟨.refl w, rfl⟩

lemma sameFiles_makeFolders (w : Workspace) (p : Path) :
    w.SameFiles (w.makeFolders p).2 ∧ (w.makeFolders p).2.cwd = w.cwd :=
  sameFiles_makeFoldersUpward _ _ w

/-! ## Writing files -/

/-- A path leads to the same place when all folders stay. -/
lemma locateFrom_of_hasFolder (hkeeps : ∀ q, root.HasFolder q → root'.HasFolder q)
    (h : locateFrom root place names = .ok place') : locateFrom root' place names = .ok place' := by
  induction names generalizing place with
  | nil => exact h
  | cons n ns ih =>
    rw [locateFrom] at h
    rcases hget : root.get? place with - | ⟨content | entries⟩
    · simp [hget] at h
    · simp [hget] at h
    · obtain ⟨entries', hget'⟩ := hkeeps place ⟨entries, hget⟩
      simp only [hget] at h
      rw [locateFrom]
      simp only [hget']
      exact ih h

/-- A workspace differs from another one in the file of a path at most, which has the given bytes.  The
path is followed where the folders above the file are there. -/
def OnlyWrites (w w' : Workspace) (file : Path) (bytes : ByteArray) : Prop :=
  ∃ place, w'.locate file = .ok place ∧ w'.fileAt place = some bytes ∧
    ∀ other, other ≠ place → w'.fileAt other = w.fileAt other

/-- **What writing a file changes**: the file that the path leads to, and no other. -/
lemma onlyWrites_of_writeBytes (h : w.writeBytes p bytes = .ok w') : w.OnlyWrites w' p bytes := by
  obtain ⟨place, root, hplace, hroot, rfl⟩ := exists_of_at h
  refine ⟨place, ?_, Entry.fileAt_write_self hroot, ?_⟩
  · exact locateFrom_of_hasFolder (fun q hq => hq.write hroot) hplace
  · intro other hne
    exact Entry.fileAt_write_of_ne hroot hne

lemma SameFiles.onlyWrites {w'' : Workspace} (h : w.SameFiles w') (h' : w'.OnlyWrites w'' p bytes) :
    w.OnlyWrites w'' p bytes := by
  obtain ⟨place, hplace, hself, hother⟩ := h'
  refine ⟨place, hplace, hself, fun other hne => ?_⟩
  rw [hother other hne, h other]

/-- What comes of writing a text: nothing, or its bytes if it has any, or an empty file if not. -/
lemma writeText_cases (encodes : String → Bool) (w : Workspace) (p : Path) (text : String) :
    (∃ o, w.writeText encodes p text = (some o, w)) ∨
    (encodes text = true ∧ ∃ w', w.writeText encodes p text = (none, w') ∧
      w.OnlyWrites w' p text.toUTF8) ∨
    encodes text = false ∧ ∃ w', w.writeText encodes p text = (some .notEncodable, w') ∧
      w.OnlyWrites w' p .empty := by
  unfold writeText
  rcases hwrite : w.writeBytes p (if encodes text then text.toUTF8 else .empty) with o | w'
  · exact .inl ⟨o, rfl⟩
  · rcases hencodes : encodes text with _ | _
    · rw [hencodes] at hwrite
      exact .inr (.inr ⟨rfl, w', rfl, onlyWrites_of_writeBytes hwrite⟩)
    · rw [hencodes] at hwrite
      exact .inr (.inl ⟨rfl, w', rfl, onlyWrites_of_writeBytes hwrite⟩)

end Workspace

end RouteScribe.Files
