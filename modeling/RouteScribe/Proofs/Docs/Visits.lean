import Mathlib.Tactic
import RouteScribe.Docs.Service

/-!
# A service over a whole run

A run is any sequence of changes to the files and requests for the document, one after the other.
Each request is a visit: the files that it finds, and the service that it finds them with.

A service that does not refresh is in one of two states.  Either no load has succeeded, and then
every visit so far has failed; or one has, and then its document is kept.  Which of the two holds is
carried along a run by `before_of_visits_eq`, and everything else is read off it: the first good
reply is the document of the files at that time, all later ones repeat it, and nothing is loaded
again.  A service that refreshes answers every request from a load of its own.
-/

namespace RouteScribe.Docs

open Document (Value)
open Files (Workspace)
open Project (Fault)

/-- What happens in a run. -/
inductive Event where
  /-- The files change. -/
  | change (files : Workspace)
  /-- The document is asked for. -/
  | request

/-- A request for the document: the files at that time, and the service before it. -/
structure Visit where
  files : Workspace
  before : Service

namespace Visit

variable (v : Visit)

/-- What comes of the request. -/
def exchange : Exchange := v.before.get v.files v.before.settings.jsonPath

def reply : Except Fault Reply := v.exchange.reply

/-- The service after the request. -/
def after : Service := v.exchange.service

/-- Whether the document is loaded for the request. -/
def loads : Bool := v.after.loads != v.before.loads

/-- Whether the document is loaded for the request, with success. -/
def loadsDocument : Bool := v.loads && v.reply.isOk

end Visit

/-- The requests of a run, in order. -/
def Service.visits (s : Service) (files : Workspace) : List Event → List Visit
  | [] => []
  | .change files' :: rest => s.visits files' rest
  | .request :: rest => ⟨files, s⟩ :: (⟨files, s⟩ : Visit).after.visits files rest

/-- The reply to a request for which a load is made. -/
def Load.reply (l : Load) : Except Fault Reply := l.document.map (Reply.json 200)

/-! ## One request -/

section

variable {v : Visit} {document : Value} {fault : Fault}

/-- A service that keeps a document answers with it, and stays as it is. -/
lemma Visit.exchange_of_kept (hrefresh : v.before.settings.refresh = false)
    (hkept : v.before.kept = some document) :
    v.reply = .ok (.json 200 document) ∧ v.after = v.before := by
  simp [Visit.reply, Visit.after, Visit.exchange, Service.get, Service.current, hrefresh, hkept,
    Except.map]

/-- A load that fails leaves a service that keeps nothing as it is, but for the count. -/
lemma Visit.exchange_of_failed (hrefresh : v.before.settings.refresh = false)
    (hkept : v.before.kept = none)
    (hload : (v.before.origin.load v.files v.before.loads).document = .error fault) :
    v.reply = .error fault ∧ v.after = { v.before with loads := v.before.loads + 1 } := by
  simp [Visit.reply, Visit.after, Visit.exchange, Service.get, Service.current, hrefresh, hkept,
    hload, Except.map]

/-- A service that keeps nothing keeps the document that it loads. -/
lemma Visit.exchange_of_loaded (hrefresh : v.before.settings.refresh = false)
    (hkept : v.before.kept = none)
    (hload : (v.before.origin.load v.files v.before.loads).document = .ok document) :
    v.reply = .ok (.json 200 document) ∧
      v.after = { v.before with loads := v.before.loads + 1, kept := some document } := by
  simp [Visit.reply, Visit.after, Visit.exchange, Service.get, Service.current, hrefresh, hkept,
    hload, Except.map]

/-- A service that refreshes loads the document, whatever it keeps. -/
lemma Visit.exchange_of_refresh (hrefresh : v.before.settings.refresh = true) :
    v.reply = (v.before.origin.load v.files v.before.loads).reply ∧
      v.after = { v.before with loads := v.before.loads + 1 } := by
  simp [Visit.reply, Visit.after, Visit.exchange, Service.get, Service.current, hrefresh,
    Load.reply]

end

/-! ## Whole runs -/

section

variable {s : Service} {files : Workspace} {events : List Event} {earlier later : List Visit}
  {v : Visit} {document : Value}

/-- The visits behind one visit are the visits of the service that it leaves. -/
lemma exists_of_visits_eq (h : s.visits files events = earlier ++ v :: later) :
    ∃ rest, later = v.after.visits v.files rest := by
  induction events generalizing s files earlier with
  | nil => simp [Service.visits] at h
  | cons e rest ih =>
    cases e with
    | change files' => exact ih h
    | request =>
      cases earlier with
      | nil =>
        obtain ⟨rfl, rfl⟩ := List.cons.inj h
        exact ⟨rest, rfl⟩
      | cons u earlier => exact ih (List.cons.inj h).2

lemma before_of_visits_eq_cons (h : s.visits files events = v :: later) : v.before = s := by
  induction events generalizing files with
  | nil => simp [Service.visits] at h
  | cons e rest ih =>
    cases e with
    | change files' => exact ih h
    | request =>
      obtain ⟨rfl, -⟩ := List.cons.inj h
      rfl

/-- All visits to a service that keeps a document. -/
lemma visits_of_kept (hrefresh : s.settings.refresh = false) (hkept : s.kept = some document) :
    ∀ u ∈ s.visits files events, u.reply = .ok (.json 200 document) ∧ u.loads = false := by
  induction events generalizing files with
  | nil => simp [Service.visits]
  | cons e rest ih =>
    cases e with
    | change files' => exact ih
    | request =>
      obtain ⟨hreply, hafter⟩ := Visit.exchange_of_kept (v := ⟨files, s⟩) hrefresh hkept
      intro u hu
      rw [Service.visits, hafter] at hu
      rcases List.mem_cons.1 hu with rfl | hu
      · refine ⟨hreply, ?_⟩
        rw [Visit.loads, hafter]
        simp
      · exact ih u hu

/-- **What a service that does not refresh is like before a visit.**  If it kept nothing at the start,
then either every visit so far has failed and caused a load, and it still keeps nothing; or one visit
was answered with the document that is kept now. -/
lemma before_of_visits_eq (hrefresh : s.settings.refresh = false) (hkept : s.kept = none)
    (h : s.visits files events = earlier ++ v :: later) :
    v.before = { s with loads := s.loads + earlier.length } ∧
        (∀ u ∈ earlier, ∃ fault, u.reply = .error fault) ∨
      ∃ u ∈ earlier, ∃ document, u.reply = .ok (.json 200 document) ∧
        v.reply = .ok (.json 200 document) := by
  induction events generalizing s files earlier with
  | nil => simp [Service.visits] at h
  | cons e rest ih =>
    cases e with
    | change files' => exact ih hrefresh hkept h
    | request =>
      cases earlier with
      | nil =>
        left
        obtain ⟨rfl, -⟩ := List.cons.inj h
        simp
      | cons u earlier =>
        obtain ⟨rfl, hrest⟩ := List.cons.inj h
        rcases hload : (s.origin.load files s.loads).document with fault | document
        · obtain ⟨hfailed, hafter⟩ := Visit.exchange_of_failed (v := ⟨files, s⟩) hrefresh hkept hload
          rw [hafter] at hrest
          rcases ih (s := { s with loads := s.loads + 1 }) hrefresh hkept hrest with
            ⟨hbefore, hfail⟩ | ⟨w, hw, hgiven⟩
          · left
            refine ⟨?_, List.forall_mem_cons.2 ⟨⟨fault, hfailed⟩, hfail⟩⟩
            rw [hbefore, List.length_cons, Nat.add_right_comm, Nat.add_assoc]
          · right
            exact ⟨w, List.mem_cons_of_mem _ hw, hgiven⟩
        · right
          obtain ⟨hgiven, hafter⟩ := Visit.exchange_of_loaded (v := ⟨files, s⟩) hrefresh hkept hload
          have hv : v ∈ (⟨files, s⟩ : Visit).after.visits files rest := by
            rw [hrest]
            simp
          rw [hafter] at hv
          obtain ⟨hagain, -⟩ := visits_of_kept (s := { s with loads := s.loads + 1, kept := some document })
            hrefresh rfl v hv
          exact ⟨_, List.mem_cons_self, document, hgiven, hagain⟩

/-- A service that refreshes has loaded the document once for each visit. -/
lemma before_of_visits_eq_of_refresh (hrefresh : s.settings.refresh = true)
    (h : s.visits files events = earlier ++ v :: later) :
    v.before = { s with loads := s.loads + earlier.length } := by
  induction events generalizing s files earlier with
  | nil => simp [Service.visits] at h
  | cons e rest ih =>
    cases e with
    | change files' => exact ih hrefresh h
    | request =>
      cases earlier with
      | nil =>
        obtain ⟨rfl, -⟩ := List.cons.inj h
        rfl
      | cons u earlier =>
        obtain ⟨rfl, hrest⟩ := List.cons.inj h
        obtain ⟨-, hafter⟩ := Visit.exchange_of_refresh (v := ⟨files, s⟩) hrefresh
        rw [hafter] at hrest
        rw [ih (s := { s with loads := s.loads + 1 }) hrefresh hrest, List.length_cons,
          Nat.add_right_comm, Nat.add_assoc]

end

/-! ## Runs from the start -/

section

variable {settings : Settings} {origin : Origin} {files : Workspace} {events : List Event}
  {earlier later : List Visit} {v : Visit} {reply : Reply} {fault : Fault}

/-- A visit to a service that has been asked before and still keeps nothing. -/
lemma exchange_of_before {calls : Nat} (hrefresh : settings.refresh = false)
    (hbefore : v.before = { Service.start settings origin with loads := calls }) :
    (∃ fault, (origin.load v.files calls).document = .error fault ∧ v.reply = .error fault ∧
      v.after = { Service.start settings origin with loads := calls + 1 }) ∨
    ∃ document, (origin.load v.files calls).document = .ok document ∧
      v.reply = .ok (.json 200 document) ∧
      v.after = { Service.start settings origin with loads := calls + 1, kept := some document } := by
  have hempty : v.before.kept = none := by rw [hbefore]; rfl
  have hsettings : v.before.settings.refresh = false := by rw [hbefore]; exact hrefresh
  have hload : v.before.origin.load v.files v.before.loads = origin.load v.files calls := by
    rw [hbefore]; rfl
  rcases hdocument : (origin.load v.files calls).document with fault | document
  · obtain ⟨hfailed, hafter⟩ := Visit.exchange_of_failed hsettings hempty (hload ▸ hdocument)
    rw [hbefore] at hafter
    exact .inl ⟨fault, rfl, hfailed, hafter⟩
  · obtain ⟨hgiven, hafter⟩ := Visit.exchange_of_loaded hsettings hempty (hload ▸ hdocument)
    rw [hbefore] at hafter
    exact .inr ⟨document, rfl, hgiven, hafter⟩

/-- Such a visit is answered from a load. -/
lemma reply_of_before {calls : Nat} (hrefresh : settings.refresh = false)
    (hbefore : v.before = { Service.start settings origin with loads := calls }) :
    v.reply = (origin.load v.files calls).reply ∧ v.loads = true := by
  rcases exchange_of_before hrefresh hbefore with
    ⟨fault, hload, hreply, hafter⟩ | ⟨document, hload, hreply, hafter⟩
  · exact ⟨by rw [hreply, Load.reply, hload]; rfl, by simp [Visit.loads, hafter, hbefore]⟩
  · exact ⟨by rw [hreply, Load.reply, hload]; rfl, by simp [Visit.loads, hafter, hbefore]⟩

/-- The first visit that is answered is answered with the document that is loaded for it, and no later
visit needs another load. -/
lemma load_of_first (hrefresh : settings.refresh = false)
    (h : (Service.start settings origin).visits files events = earlier ++ v :: later)
    (hearlier : ∀ u ∈ earlier, u.reply.isOk = false) (hv : v.reply = .ok reply) :
    ∃ document, (origin.load v.files earlier.length).document = .ok document ∧
      reply = .json 200 document ∧ v.loads = true ∧
      ∀ u ∈ later, u.reply = .ok reply ∧ u.loads = false := by
  rcases before_of_visits_eq hrefresh rfl h with ⟨hbefore, -⟩ | ⟨u, hu, document, hgiven, -⟩
  · rw [Service.start, Nat.zero_add] at hbefore
    rcases exchange_of_before hrefresh hbefore with
      ⟨fault, -, hfailed, -⟩ | ⟨document, hload, hgiven, hafter⟩
    · rw [hv] at hfailed
      cases hfailed
    · rw [hv] at hgiven
      cases hgiven
      refine ⟨document, hload, rfl, by simp [Visit.loads, hafter, hbefore], ?_⟩
      obtain ⟨rest, rfl⟩ := exists_of_visits_eq h
      rw [hafter]
      exact visits_of_kept
        (s := { Service.start settings origin with
          loads := earlier.length + 1, kept := some document }) hrefresh rfl
  · have hfailed := hearlier u hu
    rw [hgiven] at hfailed
    cases hfailed

/-- A visit that fails has caused a load that fails, and the service keeps nothing after it. -/
lemma load_of_failed (hrefresh : settings.refresh = false)
    (h : (Service.start settings origin).visits files events = earlier ++ v :: later)
    (hv : v.reply = .error fault) :
    (origin.load v.files earlier.length).document = .error fault ∧
      v.after = { Service.start settings origin with loads := earlier.length + 1 } := by
  rcases before_of_visits_eq hrefresh rfl h with ⟨hbefore, -⟩ | ⟨u, -, document, -, hgiven⟩
  · rw [Service.start, Nat.zero_add] at hbefore
    rcases exchange_of_before hrefresh hbefore with
      ⟨fault', hload, hfailed, hafter⟩ | ⟨document, -, hgiven, -⟩
    · rw [hv] at hfailed
      cases hfailed
      exact ⟨hload, hafter⟩
    · rw [hv] at hgiven
      cases hgiven
  · rw [hv] at hgiven
    cases hgiven

/-- **A service over any run of changes and requests.**

A service that does not refresh answers from one load.  Either no request of the run is answered, or
there is a first that is: it is answered with the document that is loaded from the files at that time,
every later request is answered with the same document, and this is the only load of the run that
succeeds.  A request that fails has loaded from the files at that time; the service keeps nothing after
it, and the next request loads again.

A service that refreshes answers every request from a load of its own. -/
theorem visits_of_start (settings : Settings) (origin : Origin) (files : Workspace)
    (events : List Event) :
    let visits := (Service.start settings origin).visits files events
    (settings.refresh = false →
      ((∀ v ∈ visits, v.reply.isOk = false) ∨
        ∃ earlier v later document, visits = earlier ++ v :: later ∧
          (∀ u ∈ earlier, u.reply.isOk = false) ∧
          (origin.load v.files earlier.length).document = .ok document ∧
          (∀ u ∈ v :: later, u.reply = .ok (.json 200 document)) ∧
          visits.countP Visit.loadsDocument = 1) ∧
      ∀ earlier v later fault, visits = earlier ++ v :: later → v.reply = .error fault →
        (origin.load v.files earlier.length).document = .error fault ∧ v.after.kept = none ∧
          ∀ u rest, later = u :: rest →
            u.reply = (origin.load u.files (earlier.length + 1)).reply ∧ u.loads = true) ∧
    (settings.refresh = true → ∀ earlier v later, visits = earlier ++ v :: later →
      v.reply = (origin.load v.files earlier.length).reply ∧ v.loads = true) := by
  intro visits
  refine ⟨fun hrefresh => ⟨?_, ?_⟩, ?_⟩
  · by_cases hnone : ∀ v ∈ visits, v.reply.isOk = false
    · exact .inl hnone
    · right
      rcases hfirst : visits.find? (·.reply.isOk) with - | v
      · refine absurd (fun u hu => ?_) hnone
        simpa using List.find?_eq_none.1 hfirst u hu
      obtain ⟨hok, earlier, later, hsplit, hearlier⟩ := List.find?_eq_some_iff_append.1 hfirst
      have hearlier : ∀ u ∈ earlier, u.reply.isOk = false := by simpa using hearlier
      rcases hv : v.reply with fault | reply
      · rw [hv] at hok
        cases hok
      obtain ⟨document, hload, rfl, hloads, hlater⟩ := load_of_first hrefresh hsplit hearlier hv
      refine ⟨earlier, v, later, document, hsplit, hearlier, hload, ?_, ?_⟩
      · exact List.forall_mem_cons.2 ⟨hv, fun u hu => (hlater u hu).1⟩
      · have hbefore : earlier.countP Visit.loadsDocument = 0 :=
          List.countP_eq_zero.2 fun u hu => by simp [Visit.loadsDocument, hearlier u hu]
        have hnow : v.loadsDocument = true := by simp [Visit.loadsDocument, hloads, hok]
        have hafter : later.countP Visit.loadsDocument = 0 :=
          List.countP_eq_zero.2 fun u hu => by simp [Visit.loadsDocument, (hlater u hu).2]
        rw [hsplit, List.countP_append, List.countP_cons_of_pos hnow, hbefore, hafter]
  · intro earlier v later fault hsplit hv
    obtain ⟨hload, hafter⟩ := load_of_failed hrefresh hsplit hv
    refine ⟨hload, by rw [hafter]; rfl, ?_⟩
    rintro u rest rfl
    obtain ⟨events', hlater⟩ := exists_of_visits_eq hsplit
    apply reply_of_before hrefresh
    rw [before_of_visits_eq_cons hlater.symm, hafter]
  · intro hrefresh earlier v later hsplit
    have hbefore := before_of_visits_eq_of_refresh hrefresh hsplit
    rw [Service.start, Nat.zero_add] at hbefore
    have hsettings : v.before.settings.refresh = true := by rw [hbefore]; exact hrefresh
    obtain ⟨hreply, hafter⟩ := Visit.exchange_of_refresh hsettings
    refine ⟨?_, by simp [Visit.loads, hafter]⟩
    rw [hreply, hbefore]

end

/-- A supplier that fails when there is no file `a`, and tells how often it has been called. -/
def watching : Origin :=
  .called fun files calls =>
    if (files.root.child? "a").isSome then .ok (.text (toString calls)) else .error (.noFiles [])

/-- The file is missing at the first request, is there at the second, and is gone at the third. -/
def appearance : List Event :=
  [.request, .change ⟨.folder [("a", .file .empty)], []⟩, .request, .change ⟨.folder [], []⟩,
    .request]

/-- The requests of that run. -/
def appearanceVisits (settings : Settings) : List Visit :=
  (Service.start settings watching).visits ⟨.folder [], []⟩ appearance

/-- The first request fails, the second is answered from the second load, and the third is answered
although its own load would fail; with refreshing it fails as well. -/
theorem visits_of_start_watching :
    defaultSettings.refresh = false ∧ { defaultSettings with refresh := true }.refresh = true ∧
      (appearanceVisits defaultSettings).countP Visit.loadsDocument = 1 ∧
      (∃ v rest, appearanceVisits defaultSettings = v :: rest ∧ v.reply.isOk = false ∧
        v.after.kept = none) ∧
      (∃ v ∈ appearanceVisits { defaultSettings with refresh := true },
        v.reply = (watching.load ⟨.folder [], []⟩ 2).reply) := by
  obtain ⟨hkept, -⟩ := visits_of_start defaultSettings watching ⟨.folder [], []⟩ appearance
  obtain ⟨-, hrefreshed⟩ := visits_of_start { defaultSettings with refresh := true } watching
    ⟨.folder [], []⟩ appearance
  obtain ⟨hanswered, hfailed⟩ := hkept rfl
  refine ⟨rfl, rfl, ?_, ?_, ?_⟩
  · rcases hanswered with hnone | ⟨_, _, _, _, -, -, -, -, hcount⟩
    · exact absurd (hnone _ (.tail _ (.head _))) (by decide)
    · exact hcount
  · obtain ⟨-, hempty, -⟩ := hfailed [] _ _ (.noFiles []) rfl rfl
    exact ⟨_, _, rfl, rfl, hempty⟩
  · obtain ⟨hreply, -⟩ := hrefreshed rfl [_, _] _ [] rfl
    exact ⟨_, .tail _ (.tail _ (.head _)), hreply⟩

end RouteScribe.Docs
