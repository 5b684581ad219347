import Mathlib.Tactic
import RouteScribe.Command.Run
import RouteScribe.Proofs.Files.DiscoveredFiles
import RouteScribe.Proofs.Route.Termination

/-!
# What a command changes and prints

A run that ends with an exit code other than zero leaves every regular file as it was, with one exception.
Faults of the request and of the analysis are found before the first change, and the one change to a file
comes last; folders may be left behind when the file itself cannot be written.  The exception is a run that
fails late (`FailsLate`): the file is there already when its text turns out to have no encoding, or when
the line that says where it is cannot be printed.

A run that generates a document and ends well writes one file, and prints the number of the records
that the document is made from.  A run that lists the routes changes nothing.  Each record is printed
with a line break behind it, so that it takes one line unless its path holds line breaks of its own:
`exists_of_recordLine` counts them.  Taking the styling sequences out of what is printed neither
drops nor adds a line break.
-/

namespace RouteScribe.Command

open Files (Path Workspace)
open Project (Fault Request Tools)
open Route (Record)

/-! ## Styling sequences -/

section Styles

variable {cs rest after : List Char} {c : Char}

/-- A character that starts no sequence stays. -/
alias withoutStyles_plain := withoutStyles.eq_3

/-- A whole styling sequence is dropped. -/
lemma withoutStyles_sequence (hdrop : rest.dropWhile isStyleParameter = c :: after)
    (hletter : c.isAlpha = true) : withoutStyles ('\x1b' :: '[' :: rest) = withoutStyles after := by
  rw [withoutStyles]
  split
  · rename_i c' after' hdrop'
    rw [hdrop] at hdrop'
    cases hdrop'
    rw [if_pos hletter]
  · rename_i hnil
    rw [hdrop] at hnil
    cases hnil

/-- An escape character that starts no whole sequence stays. -/
lemma withoutStyles_escape
    (h : ∀ c after, rest.dropWhile isStyleParameter = c :: after → ¬c.isAlpha = true) :
    withoutStyles ('\x1b' :: '[' :: rest) = '\x1b' :: withoutStyles ('[' :: rest) := by
  rw [withoutStyles]
  split
  · rename_i c after hdrop
    rw [if_neg (h c after hdrop)]
  · rfl

/-- A styling sequence holds no line break. -/
lemma count_withoutStyles (cs : List Char) : (withoutStyles cs).count '\n' = cs.count '\n' := by
  induction cs using withoutStyles.induct with
  | case1 => rw [withoutStyles]
  | case2 rest c after hdrop hletter ih =>
    have hparameters : '\n' ∉ rest.takeWhile isStyleParameter := by
      intro hmem
      exact absurd (List.all_eq_true.1 List.all_takeWhile _ hmem) (by decide)
    have hc : c ≠ '\n' := by
      rintro rfl
      exact absurd hletter (by decide)
    calc (withoutStyles ('\x1b' :: '[' :: rest)).count '\n'
        = after.count '\n' := by rw [withoutStyles_sequence hdrop hletter, ih]
      _ = (rest.takeWhile isStyleParameter ++ c :: after).count '\n' := by
          rw [List.count_append, List.count_eq_zero.2 hparameters, List.count_cons_of_ne hc,
            Nat.zero_add]
      _ = ('\x1b' :: '[' :: rest).count '\n' := by
          rw [← hdrop, List.takeWhile_append_dropWhile]
          simp
  | case3 rest c after hdrop hletter ih =>
    have hstays : ∀ c after, rest.dropWhile isStyleParameter = c :: after → ¬c.isAlpha = true := by
      intro c' after' hdrop'
      rw [hdrop] at hdrop'
      cases hdrop'
      exact hletter
    rw [withoutStyles_escape hstays, List.count_cons, ih, List.count_cons (l := '[' :: rest)]
  | case4 rest hdrop ih =>
    have hstays : ∀ c after, rest.dropWhile isStyleParameter = c :: after → ¬c.isAlpha = true := by
      intro c' after' hdrop'
      rw [hdrop] at hdrop'
      cases hdrop'
    rw [withoutStyles_escape hstays, List.count_cons, ih, List.count_cons (l := '[' :: rest)]
  | case5 c rest hplain ih => rw [withoutStyles_plain c rest hplain, List.count_cons, ih, List.count_cons]

/-- Text without the escape character holds no styling sequence. -/
lemma withoutStyles_of_notMem (h : '\x1b' ∉ cs) : withoutStyles cs = cs := by
  induction cs with
  | nil => rw [withoutStyles]
  | cons c cs ih =>
    obtain ⟨hc, hcs⟩ := not_or.1 (List.mem_cons.not.1 h)
    rw [withoutStyles_plain c cs fun _ hstart _ => hc hstart.symm, ih hcs]

end Styles

/-! ## Line breaks in what is printed -/

/-- How many line breaks a text holds. -/
def lineBreaks (s : String) : Nat := s.toList.count '\n'

@[simp] lemma lineBreaks_append (s t : String) :
    lineBreaks (s ++ t) = lineBreaks s + lineBreaks t := by
  simp [lineBreaks]

lemma lineBreaks_eq_zero {s : String} (h : '\n' ∉ s.toList) : lineBreaks s = 0 :=
  List.count_eq_zero.2 h

lemma lineBreaks_withoutStyles (s : String) :
    lineBreaks (String.ofList (withoutStyles s.toList)) = lineBreaks s := by
  rw [lineBreaks, String.toList_ofList, count_withoutStyles, lineBreaks]

/-- The text of a number holds digits only. -/
lemma isDigit_of_mem_toString {n : Nat} {c : Char} (h : c ∈ (toString n).toList) :
    c.isDigit = true := by
  have hdigits : c ∈ Nat.toDigits 10 n := by
    rw [show toString n = String.ofList (Nat.toDigits 10 n) from rfl, String.toList_ofList] at h
    exact h
  exact Nat.isDigit_of_mem_toDigits (by decide) (by decide) hdigits

lemma lineBreaks_toString (n : Nat) : lineBreaks (toString n) = 0 :=
  lineBreaks_eq_zero fun h => absurd (isDigit_of_mem_toString h) (by decide)

lemma lineBreaks_statusText (status : Int) : lineBreaks (Document.statusText status) = 0 := by
  cases status with
  | ofNat n => exact lineBreaks_toString n
  | negSucc n =>
    have hsign : lineBreaks "-" = 0 := rfl
    show lineBreaks ("-" ++ toString (n + 1)) = 0
    rw [lineBreaks_append, hsign, lineBreaks_toString]

lemma lineBreaks_intercalate {separator : String} {parts : List String}
    (hseparator : lineBreaks separator = 0) (hparts : ∀ s ∈ parts, lineBreaks s = 0) :
    lineBreaks (separator.intercalate parts) = 0 := by
  unfold lineBreaks at *
  rw [String.toList_intercalate]
  induction parts with
  | nil => rfl
  | cons s rest ih =>
    cases rest with
    | nil => simpa [List.intercalate] using hparts s
    | cons t rest =>
      have hrest := ih fun u hu => hparts u (List.mem_cons_of_mem s hu)
      rw [List.map_cons, List.map_cons, List.intercalate_cons_cons, List.count_append,
        List.count_append, hparts s List.mem_cons_self, hseparator, ← List.map_cons, hrest]

lemma lineBreaks_statusList (r : Record) : lineBreaks (statusList r) = 0 := by
  unfold statusList
  split
  · rfl
  · refine lineBreaks_intercalate rfl fun s hs => ?_
    obtain ⟨response, -, rfl⟩ := List.mem_map.1 hs
    exact lineBreaks_statusText _

lemma lineBreaks_methodColumn (m : Method) : lineBreaks (methodColumn m) = 0 := by
  cases m <;> decide +kernel

/-- A record is printed with a line break behind it, and with those of its path. -/
lemma exists_of_recordLine (r : Record) :
    ∃ body, recordLine r = body ++ "\n" ∧ lineBreaks body = lineBreaks r.path := by
  have hbefore : lineBreaks " " = 0 := rfl
  have hbetween : lineBreaks "  [" = 0 := rfl
  have hafter : lineBreaks "]" = 0 := rfl
  refine ⟨_, rfl, ?_⟩
  rw [lineBreaks_withoutStyles]
  simp only [lineBreaks_append, lineBreaks_methodColumn, lineBreaks_statusList, hbefore, hbetween,
    hafter, Nat.zero_add, Nat.add_zero]

/-- A count is printed as it is. -/
lemma line_count {before after : String} (n : Nat) (hbefore : '\x1b' ∉ before.toList)
    (hafter : '\x1b' ∉ after.toList) :
    line (before ++ toString n ++ after) = before ++ toString n ++ (after ++ "\n") := by
  have hplain : '\x1b' ∉ (before ++ toString n ++ after).toList := by
    intro h
    simp only [String.toList_append, List.mem_append] at h
    rcases h with (h | h) | h
    · exact hbefore h
    · exact absurd (isDigit_of_mem_toString h) (by decide)
    · exact hafter h
  rw [line, withoutStyles_of_notMem hplain, String.ofList_toList, String.append_assoc]

lemma foundLine_eq (records : List Record) :
    foundLine records = "Found " ++ toString records.length ++ " routes.\n" :=
  line_count records.length (by decide) (by decide)

lemma line_total (n : Nat) : line (toString n ++ " routes.") = toString n ++ " routes.\n" := by
  have h : line ("" ++ toString n ++ " routes.") = "" ++ toString n ++ " routes.\n" :=
    line_count n (by decide) (by decide)
  rwa [String.empty_append] at h

/-! ## Writing the document -/

variable {tools : Tools} {w : Workspace}

/-- What comes of writing a file below folders that may be missing: the files are as they were, or the
file holds the text, or it is left empty because the text cannot be encoded. -/
lemma writeWithFolders_cases (encodes : String → Bool) (w : Workspace) (file : Path) (text : String) :
    (∃ o w', writeWithFolders encodes w file text = (some o, w') ∧ w.SameFiles w') ∨
    (encodes text = true ∧ ∃ w', writeWithFolders encodes w file text = (none, w') ∧
      w.OnlyWrites w' file text.toUTF8) ∨
    encodes text = false ∧ ∃ w', writeWithFolders encodes w file text = (some .notEncodable, w') ∧
      w.OnlyWrites w' file .empty := by
  have hfolders := (Workspace.sameFiles_makeFolders w file.parent).1
  unfold writeWithFolders
  rcases hmake : w.makeFolders file.parent with ⟨- | o, w₁⟩
  · rw [hmake] at hfolders
    rcases Workspace.writeText_cases encodes w₁ file text with
      ⟨o, hwrite⟩ | ⟨hencodes, w', hwrite, honly⟩ | ⟨hencodes, w', hwrite, honly⟩
    · exact .inl ⟨o, w₁, hwrite, hfolders⟩
    · exact .inr (.inl ⟨hencodes, w', hwrite, hfolders.onlyWrites honly⟩)
    · exact .inr (.inr ⟨hencodes, w', hwrite, hfolders.onlyWrites honly⟩)
  · rw [hmake] at hfolders
    exact .inl ⟨o, w₁, rfl, hfolders⟩

/-! ## Commands -/

/-- The exit code of a run.  Arguments that make no sense end it with the code 2, and a fault that is
not one of the request with the code 1. -/
def Ending.exitCode : Ending → Nat
  | .finished console => console.exitCode
  | .misused => 2
  | .failed _ => 1

lemma exitCode_ofFault (skipped : List Project.Skipped) (f : Fault) :
    (Outcome.ofFault w skipped f).ending.exitCode = 1 := by
  unfold Outcome.ofFault Outcome.unchanged
  cases f.message? <;> rfl

/-- The records and the text of the document that the options ask for. -/
structure Writing (tools : Tools) (w : Workspace) (s : Scope) (t : Target) (records : List Record)
    (text : String) : Prop where
  surveyed : ∃ request, s.request = .ok request ∧
    (Project.survey tools w request).records = .ok records
  assembled : ∃ document, Document.assemble? ⟨t.title, t.version⟩ records = some document ∧
    text = Document.write tools.yamlText t.formatFor document

/-- A run changes the file that it is to write, and yet fails: its text cannot be encoded, and the file
is left empty; or the text is there, and the line that says so cannot be printed. -/
def FailsLate (tools : Tools) (w w' : Workspace) (s : Scope) (t : Target) : Prop :=
  ∃ records text, Writing tools w s t records text ∧
    (tools.encodes text = false ∧ w.OnlyWrites w' (Path.ofString t.out) .empty ∨
      tools.encodes text = true ∧ tools.prints t.savedLine = false ∧
        w.OnlyWrites w' (Path.ofString t.out) text.toUTF8)

/-- The records of a survey that comes to its end. -/
lemma exists_of_survey {s : Scope} {records : List Record}
    (h : (s.survey tools w).records = .ok records) :
    ∃ request, s.request = .ok request ∧
      (Project.survey tools w request).records = .ok records := by
  unfold Scope.survey at h
  rcases hrequest : s.request with f | request
  · rw [hrequest] at h
    cases h
  · rw [hrequest] at h
    exact ⟨request, rfl, h⟩

/-- What is left of a run that generates a document, once its document is there. -/
lemma generate_eq {s : Scope} {t : Target} {records : List Record} {document : Document.Value}
    (hsurvey : (s.survey tools w).records = .ok records)
    (hfound : tools.prints (foundLine records) = true)
    (hdocument : Document.assemble? ⟨t.title, t.version⟩ records = some document) :
    generate tools w s t =
      match writeWithFolders tools.encodes w (Path.ofString t.out)
        (Document.write tools.yamlText t.formatFor document) with
      | (some o, w') => ⟨.failed (.blocked o), (s.survey tools w).skipped, w',
          if o = .notEncodable then some (Path.ofString t.out) else none⟩
      | (none, w') =>
        ⟨if tools.prints t.savedLine then .finished ⟨0, foundLine records ++ t.savedLine, ""⟩
          else .failed .unprintable, (s.survey tools w).skipped, w', some (Path.ofString t.out)⟩ := by
  simp only [generate, hsurvey, hfound, hdocument]
  rfl

/-- What comes of a run that generates a document: it fails and leaves the files as they were, it fails
late, or the document is written. -/
lemma generate_effects (tools : Tools) (w : Workspace) (s : Scope) (t : Target) :
    ((generate tools w s t).ending.exitCode ≠ 0 ∧
      (w.SameFiles (generate tools w s t).workspace ∨
        FailsLate tools w (generate tools w s t).workspace s t)) ∨
    ∃ records text, Writing tools w s t records text ∧
      w.OnlyWrites (generate tools w s t).workspace (Path.ofString t.out) text.toUTF8 ∧
      (generate tools w s t).ending = .finished ⟨0, foundLine records ++ t.savedLine, ""⟩ := by
  rcases hsurvey : (s.survey tools w).records with f | records
  · have hgenerate : generate tools w s t = .ofFault w (s.survey tools w).skipped f := by
      simp only [generate, hsurvey]
    rw [hgenerate, exitCode_ofFault]
    exact .inl ⟨one_ne_zero, .inl (.refl w)⟩
  have hstays (f : Fault)
      (h : generate tools w s t = .unchanged w (s.survey tools w).skipped (.failed f)) :
      (generate tools w s t).ending.exitCode ≠ 0 ∧ w.SameFiles (generate tools w s t).workspace := by
    rw [h]
    exact ⟨one_ne_zero, .refl w⟩
  by_cases hfound : tools.prints (foundLine records) = true
  swap
  · refine .inl ((hstays .unprintable ?_).imp_right .inl)
    simp only [generate, hsurvey, hfound]
    rfl
  rcases hdocument : Document.assemble? ⟨t.title, t.version⟩ records with - | document
  · refine .inl ((hstays .longStatus ?_).imp_right .inl)
    simp only [generate, hsurvey, hfound, hdocument]
    rfl
  have hwriting : Writing tools w s t records (Document.write tools.yamlText t.formatFor document) :=
    ⟨exists_of_survey hsurvey, document, hdocument, rfl⟩
  rw [generate_eq hsurvey hfound hdocument]
  rcases writeWithFolders_cases tools.encodes w (Path.ofString t.out)
      (Document.write tools.yamlText t.formatFor document) with
    ⟨o, w', hwrite, hsame⟩ | ⟨hencodes, w', hwrite, honly⟩ | ⟨hencodes, w', hwrite, honly⟩
  · rw [hwrite]
    exact .inl ⟨one_ne_zero, .inl hsame⟩
  · rw [hwrite]
    by_cases hsaved : tools.prints t.savedLine = true
    · exact .inr ⟨records, _, hwriting, honly, if_pos hsaved⟩
    · rw [Bool.not_eq_true] at hsaved
      simp only [hsaved]
      exact .inl ⟨one_ne_zero, .inr ⟨records, _, hwriting, .inr ⟨hencodes, hsaved, honly⟩⟩⟩
  · rw [hwrite]
    exact .inl ⟨one_ne_zero, .inr ⟨records, _, hwriting, .inl ⟨hencodes, honly⟩⟩⟩

/-- What comes of a run that lists the routes: nothing is changed, and it ends with a fault, or with
the lines of the records. -/
lemma routes_effects (tools : Tools) (w : Workspace) (s : Scope) :
    (routes tools w s).workspace = w ∧
    ((routes tools w s).ending.exitCode ≠ 0 ∨
    ∃ request records, s.request = .ok request ∧
      (Project.survey tools w request).records = .ok records ∧
      (routes tools w s).ending = .finished ⟨0, String.join (records.map recordLine) ++
        line (toString records.length ++ " routes."), ""⟩) := by
  rcases hsurvey : (s.survey tools w).records with f | records
  · have hroutes : routes tools w s = .ofFault w (s.survey tools w).skipped f := by
      simp only [routes, hsurvey]
    rw [hroutes, exitCode_ofFault]
    exact ⟨rfl, .inl one_ne_zero⟩
  obtain ⟨request, hrequest, hrecords⟩ := exists_of_survey hsurvey
  rcases hlisted : records.findSome? (listingFault? tools) with - | f
  · by_cases htotal : tools.prints (line (toString records.length ++ " routes.")) = true
    · simp only [routes, hsurvey, hlisted, htotal]
      exact ⟨rfl, .inr ⟨request, records, hrequest, hrecords, rfl⟩⟩
    · rw [Bool.not_eq_true] at htotal
      simp only [routes, hsurvey, hlisted, htotal]
      exact ⟨rfl, .inl one_ne_zero⟩
  · simp only [routes, hsurvey, hlisted]
    exact ⟨rfl, .inl one_ne_zero⟩

lemma formatFor_eq_yaml_iff (t : Target) :
    t.formatFor = .yaml ↔ t.format = some .yaml ∨
      t.format = none ∧ (Path.ofString t.out).suffix.toLower ∈ yamlSuffixes := by
  unfold Target.formatFor
  rcases t.format with - | f
  · by_cases hsuffix : (Path.ofString t.out).suffix.toLower ∈ yamlSuffixes
    · simp [hsuffix]
    · simp [hsuffix]
  · simp

/-- **What a run does to the files, and what it prints**, whatever the tools are.  A run that ends with an
exit code other than zero leaves all regular files as they were, unless it generates a document and fails
late.  One that generates a document and ends with zero writes the document of the records of the survey,
in the format asked for or else that of the suffix, and changes no other file.  One that lists the routes
changes nothing, and prints the records in order and their number; a record takes one line, and one more
for each line break in its path.  A call for help changes nothing. -/
theorem effects_of_run (tools : Tools) (w : Workspace) (args : List String) :
    ((run tools w args).ending.exitCode ≠ 0 → w.SameFiles (run tools w args).workspace ∨
      ∃ s t, Invocation.ofArguments? args = some (.generate s t) ∧
        FailsLate tools w (run tools w args).workspace s t) ∧
    (∀ s t, Invocation.ofArguments? args = some (.generate s t) →
      (run tools w args).ending.exitCode = 0 →
      ∃ request records document, s.request = .ok request ∧
        (Project.survey tools w request).records = .ok records ∧
        Document.assemble? ⟨t.title, t.version⟩ records = some document ∧
        w.OnlyWrites (run tools w args).workspace (Path.ofString t.out)
          (Document.write tools.yamlText t.formatFor document).toUTF8 ∧
        (t.formatFor = .yaml ↔ t.format = some .yaml ∨
          t.format = none ∧ (Path.ofString t.out).suffix.toLower ∈ [".yaml", ".yml"]) ∧
        ∃ rest, (run tools w args).ending =
          .finished ⟨0, "Found " ++ toString records.length ++ " routes.\n" ++ rest, ""⟩) ∧
    (∀ s, Invocation.ofArguments? args = some (.routes s) →
      (run tools w args).workspace = w ∧
      ((run tools w args).ending.exitCode = 0 →
        ∃ request records, s.request = .ok request ∧
          (Project.survey tools w request).records = .ok records ∧
          (run tools w args).ending = .finished ⟨0, String.join (records.map recordLine) ++
            (toString records.length ++ " routes.\n"), ""⟩ ∧
          ∀ r ∈ records, ∃ body, recordLine r = body ++ "\n" ∧
            lineBreaks body = lineBreaks r.path)) ∧
    (Invocation.ofArguments? args = some .help → (run tools w args).workspace = w) := by
  unfold run
  rcases Invocation.ofArguments? args with - | - | ⟨s, t⟩ | s
  · exact ⟨fun _ => .inl (.refl w), nofun, nofun, nofun⟩
  · exact ⟨fun _ => .inl (.refl w), nofun, nofun, fun _ => rfl⟩
  · dsimp only
    split
    case isFalse =>
      refine ⟨fun _ => .inl (.refl w), fun _ _ _ hzero => ?_, nofun, nofun⟩
      cases hzero
    case isTrue =>
      refine ⟨fun hnonzero => ?_, fun s' t' hargs hzero => ?_, nofun, nofun⟩
      · obtain ⟨-, hfails⟩ | ⟨_, _, -, -, hending⟩ := generate_effects tools w s t
        · exact hfails.imp_right fun hlate => ⟨s, t, rfl, hlate⟩
        · rw [hending] at hnonzero
          exact absurd rfl hnonzero
      · cases hargs
        obtain ⟨hnonzero, -⟩ | ⟨records, _, hwriting, hwrites, hending⟩ :=
          generate_effects tools w s t
        · exact absurd hzero hnonzero
        · obtain ⟨⟨request, hrequest, hrecords⟩, document, hdocument, rfl⟩ := hwriting
          rw [foundLine_eq] at hending
          exact ⟨request, records, document, hrequest, hrecords, hdocument, hwrites,
            formatFor_eq_yaml_iff t, t.savedLine, hending⟩
  · dsimp only
    split
    case isFalse =>
      refine ⟨fun _ => .inl (.refl w), nofun, fun _ _ => ⟨rfl, fun hzero => ?_⟩, nofun⟩
      cases hzero
    case isTrue =>
      obtain ⟨hsame, heffects⟩ := routes_effects tools w s
      refine ⟨fun _ => .inl ?_, nofun, fun s' hargs => ⟨hsame, fun hzero => ?_⟩, nofun⟩
      · rw [hsame]
        exact .refl w
      · cases hargs
        obtain hnonzero | ⟨request, records, hrequest, hrecords, hending⟩ := heffects
        · exact absurd hzero hnonzero
        · rw [line_total] at hending
          exact ⟨request, records, hrequest, hrecords, hending, fun r _ => exists_of_recordLine r⟩

/-! ## A workspace with one file -/

section OneFile

open Files Route

/-- A workspace with one file. -/
def oneFile (text : String) : Workspace := ⟨.folder [("a.ts", .file text.toUTF8)], []⟩

/-- What is written is read back, with line feeds for all line breaks. -/
lemma decodeText_toUTF8 (s : String) :
    decodeText s.toUTF8 = .ok (String.ofList (unifyBreaks s.toList)) := by
  have hback : String.fromUTF8? s.toUTF8 = some s := dif_pos s.isValidUTF8
  rw [decodeText, hback]

/-- The tools of this library, with other encodings for files. -/
def toolsEncoding (encodes : String → Bool) : Tools := { Tools.standard with encodes }

lemma discover_oneFile (text : String) :
    discover compileIgnores (oneFile text) .absolute [] ["a.ts"] = .ok [Path.absolute ["a.ts"]] := by
  have hpatterns : ["a.ts"].flatMap expandBraces = ["a.ts"] := by decide +kernel
  have hbase : splitBase "a.ts" = (⟨false, ["a.ts"]⟩, "") := by decide +kernel
  have hrules : compileIgnores (defaultIgnores ++ []) = .ok ⟨IgnoreLine.select defaultLines⟩ := by
    rw [List.append_nil, compileIgnores_defaultIgnores]
  have hfound : candidates compileIgnores (oneFile text) ⟨IgnoreLine.select defaultLines⟩ "a.ts" =
      .ok [⟨false, ["a.ts"]⟩] := by
    have hfile : ((oneFile text).isFile ⟨false, ["a.ts"]⟩ &&
        !IgnoreLine.select defaultLines "a.ts") = true := by
      rw [select_defaultLines]
      rfl
    rw [candidates_named hbase]
    exact congrArg Except.ok (if_pos hfile)
  have hsorted : Path.sortUnique [Path.absolute ["a.ts"]] = [Path.absolute ["a.ts"]] := by
    decide +kernel
  refine discover_eq_ok_iff.2 ⟨_, [[⟨false, ["a.ts"]⟩]], hrules, ?_, hsorted⟩
  rw [hpatterns, List.mapM_cons, hfound]
  rfl

/-- The survey of one well-formed file, without a folder convention. -/
lemma survey_oneFile (encodes : String → Bool) {text : String} {records : List Record}
    (hbreaks : unifyBreaks text.toList = text.toList)
    (hparse : (Source.parse .plain text).isSome = true)
    (hrecords : analyze .any (programOf text) = .ok records) :
    (Project.survey (toolsEncoding encodes) (oneFile text) ⟨["a.ts"], none, .any⟩).records =
      .ok records := by
  have hread : (oneFile text).readText (Path.absolute ["a.ts"]) = .ok text := by
    have hdecode := decodeText_toUTF8 text
    rw [hbreaks, String.ofList_toList] at hdecode
    exact hdecode
  have hdialect : Project.dialectOf (Path.absolute ["a.ts"]) = .plain := by decide +kernel
  have hparses : (toolsEncoding encodes).parse .plain text = some (programOf text) :=
    parse_eq_some_programOf hparse
  have hprogram : Project.programOf (toolsEncoding encodes) (oneFile text) (Path.absolute ["a.ts"]) =
      .ok (programOf text) := by
    simp only [Project.programOf, hread, hdialect, hparses]
  have hdiscovered : discover (toolsEncoding encodes).compile (oneFile text) .absolute []
      (⟨["a.ts"], none, .any⟩ : Request).patterns = .ok [Path.absolute ["a.ts"]] :=
    discover_oneFile text
  simp only [Project.survey, hdiscovered, Project.surveyFiles, Project.surveyFile, hprogram, hrecords]
  simp [Project.Survey.andThen, Project.Survey.empty, compose, Except.map]

/-- The options that name the one file. -/
def oneFileScope : Scope := ⟨["a.ts"], none, none, false⟩

/-- The options for the document when none are given. -/
def defaultTarget : Target := ⟨defaultOut, none, Document.defaultTitle, Document.defaultVersion⟩

lemma ofArguments?_oneFile :
    Invocation.ofArguments? ["generate", "--entries", "a.ts"] =
        some (.generate oneFileScope defaultTarget) ∧
      Invocation.ofArguments? ["routes", "--entries", "a.ts"] = some (.routes oneFileScope) := by
  decide +kernel

lemma run_generate_oneFile (tools : Tools) {w : Workspace} (h : defaultTarget.isUsable w = true) :
    run tools w ["generate", "--entries", "a.ts"] = generate tools w oneFileScope defaultTarget := by
  have husable : (oneFileScope.isUsable w && defaultTarget.isUsable w) = true := by
    rw [h]
    rfl
  simp only [run, ofArguments?_oneFile.1]
  exact if_pos husable

lemma run_routes_oneFile (tools : Tools) (w : Workspace) :
    run tools w ["routes", "--entries", "a.ts"] = routes tools w oneFileScope := by
  have husable : oneFileScope.isUsable w = true := rfl
  simp only [run, ofArguments?_oneFile.2]
  exact if_pos husable

lemma ending_routes_oneFile {w : Workspace} {records : List Record}
    (h : (Project.survey .standard w ⟨["a.ts"], none, .any⟩).records = .ok records)
    (hwritten : records.any Document.hasLongStatus = false) :
    (run .standard w ["routes", "--entries", "a.ts"]).ending = .finished
      ⟨0, String.join (records.map recordLine) ++ (toString records.length ++ " routes.\n"), ""⟩ := by
  have hsurvey : (oneFileScope.survey .standard w).records = .ok records := h
  have hlisted : records.findSome? (listingFault? .standard) = none := by
    rw [List.findSome?_eq_none_iff]
    intro r hr
    rw [listingFault?, if_neg (List.any_eq_false.1 hwritten r hr)]
    rfl
  rw [run_routes_oneFile]
  simp only [routes, hsurvey, hlisted, line_total]
  rfl

/-- A route whose path holds a line break. -/
def brokenPathText : String := "app.get(`/a\n/b`, (c) => c.json(1))\n"

lemma exists_records_of_brokenPath (encodes : String → Bool) : ∃ records,
    (Project.survey (toolsEncoding encodes) (oneFile brokenPathText) ⟨["a.ts"], none, .any⟩).records =
      .ok records ∧
      records.map (·.path) = ["/a\n/b"] ∧ records.any Document.hasLongStatus = false := by
  have hspec : unifyBreaks brokenPathText.toList = brokenPathText.toList ∧
      (Source.parse .plain brokenPathText).isSome = true ∧
      (analyze .any (programOf brokenPathText)).toOption.any (fun records =>
        decide (records.map (·.path) = ["/a\n/b"]) && !records.any Document.hasLongStatus) = true := by
    decide +kernel
  obtain ⟨hbreaks, hparse, hspec⟩ := hspec
  rcases hrecords : analyze .any (programOf brokenPathText) with e | records
  · rw [hrecords] at hspec
    cases hspec
  · rw [hrecords] at hspec
    obtain ⟨hpaths, hwritten⟩ := Bool.and_eq_true_iff.1 hspec
    exact ⟨records, survey_oneFile encodes hbreaks hparse hrecords, of_decide_eq_true hpaths,
      by simpa using hwritten⟩

/-- The text of the document of some records, as it is written when nothing else is asked for. -/
def documentText (records : List Record) : String :=
  Document.write Document.Value.yamlText .json (Document.assemble Document.defaultInfo records)

/-- What comes of generating the document of the route, by what can be encoded. -/
lemma generate_brokenPath (encodes : String → Bool) {records : List Record}
    (hsurvey : (Project.survey (toolsEncoding encodes) (oneFile brokenPathText)
      ⟨["a.ts"], none, .any⟩).records = .ok records)
    (hwritten : records.any Document.hasLongStatus = false) :
    let outcome := run (toolsEncoding encodes) (oneFile brokenPathText) ["generate", "--entries", "a.ts"]
    (encodes (documentText records) = true → outcome.ending.exitCode = 0) ∧
    (encodes (documentText records) = false → outcome.ending.exitCode ≠ 0 ∧
      outcome.workspace.fileAt ["openapi.json"] = some .empty) := by
  intro outcome
  have hfile : Path.ofString defaultTarget.out = ⟨false, ["openapi.json"]⟩ := by decide +kernel
  have hjson : defaultTarget.formatFor = .json := by decide +kernel
  have husable : defaultTarget.isUsable (oneFile brokenPathText) = true := by decide +kernel
  have hsurvey : (oneFileScope.survey (toolsEncoding encodes) (oneFile brokenPathText)).records =
      .ok records := hsurvey
  have hdocument : Document.assemble? ⟨defaultTarget.title, defaultTarget.version⟩ records =
      some (Document.assemble Document.defaultInfo records) := by
    rw [Document.assemble?, hwritten]
    rfl
  obtain ⟨w', hwrite, hempty⟩ : ∃ w', writeWithFolders (toolsEncoding encodes).encodes
      (oneFile brokenPathText) ⟨false, ["openapi.json"]⟩ (documentText records) =
        (if encodes (documentText records) then none else some .notEncodable, w') ∧
      w'.fileAt ["openapi.json"] =
        some (if encodes (documentText records) then (documentText records).toUTF8 else .empty) :=
    ⟨_, rfl, rfl⟩
  have htext : Document.write (toolsEncoding encodes).yamlText defaultTarget.formatFor
      (Document.assemble Document.defaultInfo records) = documentText records := by
    rw [hjson]
    rfl
  have hgenerate : outcome = generate (toolsEncoding encodes) (oneFile brokenPathText) oneFileScope
      defaultTarget := run_generate_oneFile _ husable
  rw [hgenerate, generate_eq hsurvey rfl hdocument, htext, hfile, hwrite]
  constructor
  · intro hencodes
    rw [hencodes]
    rfl
  · intro hencodes
    rw [hencodes] at hempty ⊢
    exact ⟨one_ne_zero, hempty⟩

/-- A run that generates the document of the route, one that lists it, a call for help, and one that
is misused. -/
theorem effects_of_brokenPath :
    let w := oneFile brokenPathText
    let generation := run .standard w ["generate", "--entries", "a.ts"]
    let listing := run .standard w ["routes", "--entries", "a.ts"]
    (generation.ending.exitCode = 0 ∧ ∃ document,
      w.OnlyWrites generation.workspace (Path.ofString "openapi.json")
        (Document.write Document.Value.yamlText .json document).toUTF8) ∧
    (listing.ending.exitCode = 0 ∧ listing.workspace = w) ∧
    ((run .standard w []).ending.exitCode ≠ 0 ∧ w.SameFiles (run .standard w []).workspace) ∧
    (run .standard w ["--help"]).workspace = w := by
  intro w generation listing
  obtain ⟨records, hrecords, -, hwritten⟩ := exists_records_of_brokenPath fun _ => true
  have hgenerated : generation.ending.exitCode = 0 :=
    (generate_brokenPath (fun _ => true) hrecords hwritten).1 rfl
  have hlisted : listing.ending.exitCode = 0 := by
    show (run .standard w ["routes", "--entries", "a.ts"]).ending.exitCode = 0
    rw [ending_routes_oneFile hrecords hwritten]
    rfl
  have hmisused : (run .standard w []).ending.exitCode ≠ 0 := by decide
  have hjson : defaultTarget.formatFor = .json := by decide +kernel
  obtain ⟨_, _, document, -, -, -, hwrites, -⟩ :=
    (effects_of_run .standard w ["generate", "--entries", "a.ts"]).2.1
      oneFileScope defaultTarget ofArguments?_oneFile.1 hgenerated
  rw [hjson] at hwrites
  have hsame := (effects_of_run .standard w []).1 hmisused
  refine ⟨⟨hgenerated, document, hwrites⟩,
    ⟨hlisted, ((effects_of_run .standard w _).2.2.1 oneFileScope ofArguments?_oneFile.2).1⟩,
    ⟨hmisused, hsame.resolve_right ?_⟩, (effects_of_run .standard w ["--help"]).2.2.2 (by decide)⟩
  rintro ⟨s, t, hargs, -⟩
  cases hargs

/-- **A record may take more than one line, and a failed run may leave a file behind**: one route is
listed, and three lines are printed; and where the text of its document cannot be encoded, the file is
there, and empty, after the run has failed. -/
theorem exceptions_of_brokenPath :
    let w := oneFile brokenPathText
    let listing := ["routes", "--entries", "a.ts"]
    let failure := run (toolsEncoding fun _ => false) w ["generate", "--entries", "a.ts"]
    (∃ s request records out, Invocation.ofArguments? listing = some (.routes s) ∧
      s.request = .ok request ∧ (Project.survey .standard w request).records = .ok records ∧
      (run .standard w listing).ending = .finished ⟨0, out, ""⟩ ∧
      records.length = 1 ∧ lineBreaks out = 3) ∧
    failure.ending.exitCode ≠ 0 ∧ ¬w.SameFiles failure.workspace := by
  intro w listing failure
  constructor
  · obtain ⟨records, hrecords, hpaths, hwritten⟩ := exists_records_of_brokenPath fun _ => true
    obtain ⟨r, rfl, hpath⟩ := List.map_eq_singleton_iff.1 hpaths
    obtain ⟨body, hline, hbody⟩ := exists_of_recordLine r
    refine ⟨oneFileScope, _, [r], _, ofArguments?_oneFile.2, rfl, hrecords,
      ending_routes_oneFile hrecords hwritten, rfl, ?_⟩
    have hbody : lineBreaks body = 1 := by
      rw [hbody, hpath]
      rfl
    have hend : lineBreaks "\n" = 1 := rfl
    have htotal : lineBreaks (toString 1 ++ " routes.\n") = 1 := by
      rw [lineBreaks_append, lineBreaks_toString]
      rfl
    calc lineBreaks (String.join [recordLine r] ++ (toString 1 ++ " routes.\n"))
        = lineBreaks (body ++ "\n" ++ (toString 1 ++ " routes.\n")) := by
          rw [hline, String.join_cons, String.join_nil, String.append_empty]
      _ = 3 := by rw [lineBreaks_append, lineBreaks_append, hbody, hend, htotal]
  · obtain ⟨records, hrecords, -, hwritten⟩ := exists_records_of_brokenPath fun _ => false
    obtain ⟨hfails, hempty⟩ := (generate_brokenPath (fun _ => false) hrecords hwritten).2 rfl
    refine ⟨hfails, fun hsame => ?_⟩
    have hnone : w.fileAt ["openapi.json"] = none := rfl
    have hchanged := (hsame ["openapi.json"]).symm.trans hempty
    rw [hnone] at hchanged
    cases hchanged

end OneFile

end RouteScribe.Command
