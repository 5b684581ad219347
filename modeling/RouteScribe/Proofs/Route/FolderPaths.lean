import RouteScribe.Proofs.Route.Joining
import RouteScribe.Route.Convention

/-!
# Paths that folders contribute

Under the convention of one file per route, the names on the way from the root down to a file become
the segments in front of every path of that file.  A name is plain text, which is a segment as it
stands, or the name of a parameter in one of three kinds of brackets (`PlaceName`); as a segment of a
path the brackets make no difference any more (`segmentChars_chars`).  The name of the file itself
counts without its suffix, and not at all when it is that of a method or of an index file
(`PlaceName.contribution`).

What the readers of a path find in the folder path is read off its segments
(`segments_placePath`, `params_placePath`, `segments_template_placePath`), and joining puts it in front of what
they find in the path of the route.
-/

namespace RouteScribe.Route

open Files (Path Workspace)

/-! ## Names of folders and files -/

/-- The brackets around the name of a parameter: `[id]`, `[...id]` or `[[...id]]`. -/
inductive Brackets where
  | single
  | catchAll
  | optional
  deriving DecidableEq, Repr

/-- The name of a folder, or of a file without its suffix. -/
inductive PlaceName where
  /-- Text without colons, brackets and braces. -/
  | plain (text : List Char) (hne : text ≠ []) (h : ∀ c ∈ text, c ∉ [':', '[', ']', '{', '}', '/'])
  /-- The name of a parameter in brackets. -/
  | parameter (brackets : Brackets) (name : List Char) (h : IsName name)

namespace PlaceName

/-- The characters of a name as it stands in the file system. -/
def chars : PlaceName → List Char
  | plain text _ _ => text
  | parameter .single name _ => '[' :: name ++ [']']
  | parameter .catchAll name _ => '[' :: '.' :: '.' :: '.' :: name ++ [']']
  | parameter .optional name _ => '[' :: '[' :: '.' :: '.' :: '.' :: name ++ [']', ']']

def text (p : PlaceName) : String := String.ofList p.chars

/-- The segment that a name stands for. -/
def toSegment : PlaceName → Segment
  | plain text _ h => .plain text fun c hc hmem => h c hc (by simp at hmem ⊢; tauto)
  | parameter _ name h => .parameter name none h (by simp)

/-- The segments that the name of a file adds, without its suffix: none when it is the name of a
method in any case of its letters, or that of an index file. -/
def contribution (own : PlaceName) : List PlaceName :=
  if own.text = "index" ∨ ∃ m ∈ Method.all, own.text.toLower = m.name then [] else [own]

lemma chars_toSegment_ne_nil (p : PlaceName) : p.toSegment.chars ≠ [] := by
  cases p with
  | plain text hne h => exact hne
  | parameter brackets name h => simp [toSegment, Segment.chars]

/-- A name holds no constraint that further names could hide in. -/
lemma hiddenNames_toSegment (p : PlaceName) : p.toSegment.hiddenNames = [] := by
  cases p <;> rfl

end PlaceName

/-! ## Reading names -/

lemma inside?_bracketed (opening closing : Char) (name : List Char) :
    inside? opening closing (opening :: (name ++ [closing])) = some name := by
  simp [inside?]

lemma inside?_of_head? {opening closing : Char} {cs : List Char} (h : cs.head? ≠ some opening) :
    inside? opening closing cs = none := by
  cases cs with
  | nil => rfl
  | cons c cs =>
    have hc : c ≠ opening := by simpa using h
    rw [inside?, if_neg fun hboth => hc hboth.1]

/-- A name in brackets becomes the parameter of that name, and other text stays as it is. -/
lemma segmentChars_chars (p : PlaceName) : segmentChars p.chars = p.toSegment.chars := by
  cases p with
  | plain text hne h =>
    have hfirst : text.head? ≠ some '[' := fun hhead =>
      h '[' (List.mem_of_head? hhead) (by decide)
    rw [PlaceName.chars, segmentChars, inside?_of_head? hfirst]
    rfl
  | parameter brackets name h =>
    have hnone (c : Char) (hc : isNameChar c = false) : name.head? ≠ some c := fun hhead =>
      not_mem_of_isName h hc (List.mem_of_head? hhead)
    have hname : (Segment.parameter name none h (by simp)).chars = ':' :: name := by
      simp [Segment.chars, Segment.bracedConstraint]
    rw [PlaceName.toSegment, hname]
    cases brackets with
    | single =>
      rw [PlaceName.chars, segmentChars, List.cons_append, inside?_bracketed]
      dsimp only
      rw [inside?_of_head? (hnone '[' (by decide)), Option.getD_none]
      split
      · exact absurd rfl (hnone '.' (by decide))
      · rfl
    | catchAll =>
      have hpoints : inside? '[' ']' ('.' :: '.' :: '.' :: name) = none :=
        inside?_of_head? (by simp)
      have hsplit : (PlaceName.parameter .catchAll name h).chars =
          '[' :: (('.' :: '.' :: '.' :: name) ++ [']']) := rfl
      rw [hsplit, segmentChars, inside?_bracketed]
      dsimp only
      rw [hpoints, Option.getD_none]
      rfl
    | optional =>
      have hsplit : (PlaceName.parameter .optional name h).chars =
          '[' :: ('[' :: (('.' :: '.' :: '.' :: name) ++ [']']) ++ [']']) := by
        simp [PlaceName.chars]
      rw [hsplit, segmentChars, inside?_bracketed]
      dsimp only
      rw [inside?_bracketed, Option.getD_some]
      rfl

lemma methodOfStem?_isSome_iff (stem : String) :
    (methodOfStem? stem).isSome = true ↔ ∃ m ∈ Method.all, stem.toLower = m.name := by
  rw [methodOfStem?, Method.ofName?, List.find?_isSome]
  simp only [beq_iff_eq, @eq_comm _ stem.toLower]

/-! ## Reading a path of segments -/

/-- Fields that are not empty and hold no slash are the segments of what they are joined to. -/
lemma segmentsOf_joinFields {fs : List (List Char)} (h : ∀ f ∈ fs, f ≠ [] ∧ '/' ∉ f) :
    segmentsOf (Text.joinFields '/' fs) = fs := by
  rcases eq_or_ne fs [] with rfl | hne
  · rfl
  · rw [segmentsOf, Text.fields_joinFields hne fun f hf => (h f hf).2]
    exact List.filter_eq_self.2 fun f hf => by simpa using (h f hf).1

lemma toList_pathOf (names : List String) :
    (pathOf names).toList = '/' :: Text.joinFields '/' (names.map String.toList) := by
  rw [pathOf, String.toList_append, String.toList_intercalate, Text.joinFields_eq_intercalate]
  rfl

/-- A path of names is cut at its slashes into these names again. -/
lemma segments_pathOf {names : List String} (h : ∀ n ∈ names, n ≠ "" ∧ '/' ∉ n.toList) :
    segments (pathOf names) = names := by
  have hparts : ∀ f ∈ names.map String.toList, f ≠ [] ∧ '/' ∉ f := by
    intro f hf
    obtain ⟨n, hn, rfl⟩ := List.mem_map.1 hf
    exact ⟨fun hnil => (h n hn).1 (String.toList_eq_nil_iff.1 hnil), (h n hn).2⟩
  rw [segments, toList_pathOf, additive_cons_slash segmentsOf_nil segmentsOf_append_slash,
    segmentsOf_joinFields hparts, List.map_map]
  simp

lemma slash_notMem_chars (s : Segment) : '/' ∉ s.chars := by
  cases s with
  | plain text h => exact fun hmem => h '/' hmem (by decide)
  | parameter name constraint hname h =>
    have hslash : '/' ∉ name := not_mem_of_isName hname (by decide)
    cases constraint with
    | none => simpa [Segment.chars, Segment.bracedConstraint] using hslash
    | some inside =>
      have hinside : '/' ∉ inside := fun hmem => h '/' hmem rfl
      simp [Segment.chars, Segment.bracedConstraint, hslash, hinside]

lemma slash_notMem_templateChars (s : Segment) : '/' ∉ s.templateChars := by
  cases s with
  | plain text h => exact fun hmem => h '/' hmem (by decide)
  | parameter name constraint hname h =>
    have hslash : '/' ∉ name := not_mem_of_isName hname (by decide)
    simp [Segment.templateChars, hslash]

section

variable (place : List PlaceName)

lemma toList_placePath :
    (pathOf (place.map fun p => String.ofList p.toSegment.chars)).toList =
      '/' :: pathChars (place.map PlaceName.toSegment) := by
  rw [toList_pathOf, pathChars]
  simp [Function.comp_def]

lemma segments_placePath : segments (pathOf (place.map fun p => String.ofList p.toSegment.chars)) =
    place.map fun p => String.ofList p.toSegment.chars := by
  refine segments_pathOf fun n hn => ?_
  obtain ⟨p, -, rfl⟩ := List.mem_map.1 hn
  rw [String.toList_ofList]
  exact ⟨by simpa using p.chars_toSegment_ne_nil, slash_notMem_chars _⟩

lemma params_placePath : params (pathOf (place.map fun p => String.ofList p.toSegment.chars)) =
    (place.flatMap fun p => p.toSegment.names).map String.ofList := by
  rw [params, toList_placePath, additive_cons_slash rfl paramsFrom_append_slash, paramsFrom_pathChars,
    List.flatMap_map]
  simp only [PlaceName.hiddenNames_toSegment, List.append_nil]

lemma segments_template_placePath :
    segments (template (pathOf (place.map fun p => String.ofList p.toSegment.chars))) =
      place.map fun p => String.ofList p.toSegment.templateChars := by
  have hparts : ∀ f ∈ (place.map PlaceName.toSegment).map Segment.templateChars,
      f ≠ [] ∧ '/' ∉ f := by
    intro f hf
    rw [List.map_map] at hf
    obtain ⟨p, -, rfl⟩ := List.mem_map.1 hf
    refine ⟨?_, slash_notMem_templateChars _⟩
    cases p with
    | plain text hne h => exact hne
    | parameter brackets name h => simp [PlaceName.toSegment, Segment.templateChars]
  rw [segments, template, String.toList_ofList, toList_placePath, templateOf_slash,
    additive_cons_slash segmentsOf_nil segmentsOf_append_slash, templateOf_pathChars,
    segmentsOf_joinFields hparts, List.map_map, List.map_map]
  rfl

end

/-! ## The path of a file -/

variable {cwd : List String} {root file : Path}

lemma relativeTo?_append (root names : List String) :
    Path.relativeTo? root (root ++ names) = some names := by
  rw [Path.relativeTo?, if_pos (by simp), List.drop_left]

/-- The path that a file below the root contributes. -/
lemma filePath_of_below {folders : List PlaceName} {own : PlaceName} {fileName : String}
    (hplace : file.resolve cwd = root.resolve cwd ++ (folders.map PlaceName.text ++ [fileName]))
    (hown : (Path.splitName fileName).1 = own.text) :
    filePath cwd root file = some (pathOf ((folders ++ own.contribution).map fun p =>
      String.ofList p.toSegment.chars)) := by
  have hcontribution : (if ((methodOfStem? own.text).isSome || own.text == indexStem) = true then []
      else [own.text]) = own.contribution.map PlaceName.text := by
    have hiff : ((methodOfStem? own.text).isSome || own.text == indexStem) = true ↔
        own.text = "index" ∨ ∃ m ∈ Method.all, own.text.toLower = m.name := by
      rw [Bool.or_eq_true, methodOfStem?_isSome_iff, beq_iff_eq, indexStem, or_comm]
    unfold PlaceName.contribution
    simp only [hiff]
    split
    · rfl
    · rfl
  have hsegment (p : PlaceName) : segment p.text = String.ofList p.toSegment.chars := by
    rw [segment, PlaceName.text, String.toList_ofList, segmentChars_chars]
  rw [filePath, hplace, relativeTo?_append, Option.map_some]
  dsimp only
  rw [List.getLast?_concat, Option.getD_some, hown, hcontribution, List.dropLast_concat,
    ← List.map_append, List.map_map]
  simp only [Function.comp_def, hsegment]
  congr 2
  refine List.filter_eq_self.2 fun name hname => ?_
  obtain ⟨p, -, rfl⟩ := List.mem_map.1 hname
  simpa using p.chars_toSegment_ne_nil

lemma filePath_of_outside (h : ¬root.resolve cwd <+: file.resolve cwd) :
    filePath cwd root file = none := by
  rw [filePath, Path.relativeTo?, if_neg (by simpa using h), Option.map_none]

/-- What a composed record is: the one it is made from, or that one under the path of its file. -/
lemma compose_perFile (w : Workspace) (root file : Path) (records : List Record) :
    compose w (some (.perFile root)) file records =
      match filePath w.cwd root file with
      | none => records
      | some folder => records.map (·.under folder) := rfl

/-- **Paths of folders and files.**  For a file below the root, the path of each record gets one
segment in front for each folder, and one for the file unless it is called after a method or is an
index file: plain names as they are, names in brackets as parameters.  The parameters of the record
are those names, and then those of its own path; the template has exactly these names in braces.
Records of a file outside the root stay as they are.  In any case the records keep their number and
their order, and all that is not their path or its parameters. -/
theorem folder_paths (w : Workspace) (root file : Path) (records : List Record) :
    (∀ (folders : List PlaceName) (own : PlaceName) (fileName : String),
      file.resolve w.cwd = root.resolve w.cwd ++ (folders.map PlaceName.text ++ [fileName]) →
      (Path.splitName fileName).1 = own.text →
      let place := (folders ++ own.contribution).map PlaceName.toSegment
      List.Forall₂
        (fun r r' =>
          segments r'.path = place.map (String.ofList ·.chars) ++ segments r.path ∧
          r'.params = (place.flatMap Segment.names).map String.ofList ++ params r.path ∧
          segments (template r'.path) =
            place.map (String.ofList ·.templateChars) ++ segments (template r.path))
        records (compose w (some (.perFile root)) file records)) ∧
    (¬root.resolve w.cwd <+: file.resolve w.cwd →
      compose w (some (.perFile root)) file records = records) ∧
    List.Forall₂ (fun r r' => r' = { r with path := r'.path, params := r'.params }) records
      (compose w (some (.perFile root)) file records) := by
  refine ⟨fun folders own fileName hplace hown => ?_, fun houtside => ?_, ?_⟩
  · rw [compose_perFile, filePath_of_below hplace hown, List.forall₂_map_right_iff]
    refine List.forall₂_same.2 fun r _ => ⟨?_, ?_, ?_⟩
    · rw [Record.under, segments_join, Option.getD_some, segments_placePath, List.map_map]
      rfl
    · rw [Record.under, params_join, Option.getD_some, params_placePath, List.flatMap_map]
    · rw [Record.under, template_join, segments_join, Option.getD_some, Option.getD_some,
        segments_template_placePath, List.map_map]
      rfl
  · rw [compose_perFile, filePath_of_outside houtside]
  · rw [compose_perFile]
    split
    · exact List.forall₂_same.2 fun r _ => rfl
    · rw [List.forall₂_map_right_iff]
      exact List.forall₂_same.2 fun r _ => rfl

/-- A file that is called after a method, two folders below the root, and one outside it. -/
theorem folder_paths_of_pages :
    let w : Workspace := ⟨.folder [], []⟩
    let root : Path := ⟨false, ["site"]⟩
    let file : Path := ⟨false, ["site", "blog", "[[...rest]]", "GET.ts"]⟩
    let r := Record.bare .get "/:page" ["page"]
    (∃ r', compose w (some (.perFile root)) file [r] = [r'] ∧
      segments r'.path = ["blog", ":rest", ":page"] ∧ r'.params = ["rest", "page"] ∧
      segments (template r'.path) = ["blog", "\x7brest\x7d", "\x7bpage\x7d"]) ∧
    compose w (some (.perFile root)) ⟨false, ["app.ts"]⟩ [r] = [r] := by
  intro w root file r
  let folders : List PlaceName :=
    [.plain ['b', 'l', 'o', 'g'] (by decide) (by simp),
      .parameter .optional ['r', 'e', 's', 't'] (by decide)]
  let own : PlaceName := .plain ['G', 'E', 'T'] (by decide) (by simp)
  obtain ⟨hstem, hown, hlocal, hparam, htemplate⟩ :
      (Path.splitName "GET.ts").1 = own.text ∧ own.contribution = [] ∧
        segments r.path = [":page"] ∧ params r.path = ["page"] ∧
        segments (template r.path) = ["\x7bpage\x7d"] := by
    decide +kernel
  have hbelow := (folder_paths w root file [r]).1 folders own "GET.ts" rfl hstem
  rw [hown, List.append_nil, List.forall₂_cons_left_iff] at hbelow
  obtain ⟨r', rest, ⟨hsegments, hparams, hbraced⟩, hnil, hcompose⟩ := hbelow
  obtain rfl := List.forall₂_nil_left_iff.1 hnil
  rw [hlocal] at hsegments
  rw [hparam] at hparams
  rw [htemplate] at hbraced
  exact ⟨⟨r', hcompose, hsegments, hparams, hbraced⟩,
    (folder_paths w root ⟨false, ["app.ts"]⟩ [r]).2.1 (by decide)⟩

end RouteScribe.Route
