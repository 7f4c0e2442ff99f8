import RepoAudit.Proofs.Aggregate
import RepoAudit.Proofs.Service.Ending
import RepoAudit.Registry

/-!
# What a scan reports

A scan without a review whose repository is fetched and whose languages are found hands what its
tools reported to aggregation and the result to the store. The store is the one place where it can
still be lost: the table of findings holds line numbers of 64 bits, tools may print larger ones, and
a completion is written as a whole or not at all.

* `Config.Undisturbed` — nobody asks the job to stop, and the identifiers drawn for its findings are
  new;
* `Config.Course` — what lies behind a pipeline at its point, up to the findings it hands on;
* `Service.findings_kept_iff` — **the job ends completed with exactly the aggregated findings if and
  only if every line number that counts is below `Json.wordBound`; otherwise it fails, and all
  findings of all tools are lost**;
* `Service.findings_lost` — one number printed by one tool for which they are.
-/

namespace RepoAudit

open Relation

variable {σ : Type}

/-- A use that did not fail to fetch or to find languages. -/
def Use.Succeeded : Use → Prop
  | .fetched (.error _) | .detected _ (.error _) => False
  | _ => True

/-- Fetching or finding languages has failed. -/
def Failed (log : List Use) : Prop := ∃ u ∈ log, ¬ u.Succeeded

theorem Failed.append {log : List Use} (h : Failed log) (uses : List Use) : Failed (log ++ uses) := by
  obtain ⟨u, hu, hfailed⟩ := h
  exact ⟨u, List.mem_append_left _ hu, hfailed⟩

theorem failed_append_singleton (log : List Use) {u : Use} (h : ¬ u.Succeeded) :
    Failed (log ++ [u]) :=
  ⟨u, List.mem_append_right _ List.mem_cons_self, h⟩

/-- The uses of a scan up to the reports of its tools. -/
def scanLog (path : String) (languages : List Language) (results : List ToolResult) : List Use :=
  [.fetched (.ok path), .detected path (.ok languages), .scanned path languages results]

/-! ### What the store can do with the findings -/

namespace World

variable {w w' : World σ} {id : String} {a : JobStatus} {now : Moment} {ids : Nat → String}
  {results : List ToolResult}

/-- A job is completed with some findings. -/
def Completed (w : World σ) (id : String) (findings : List Finding) : Prop :=
  ∃ r, w.store.record? id = some r ∧ r.status = .completed ∧
    w.store.rowsFor id = Store.rowsOf id findings

/-- A job has failed for a defect. -/
def Defective (w : World σ) (id : String) : Prop :=
  ∃ r, w.store.record? id = some r ∧ r.status = .failed ∧ r.error = some Pipeline.defectText

/-- How a job ends whose tools reported `results`. -/
def Outcome (w : World σ) (id : String) (ids : Nat → String) (results : List ToolResult) : Prop :=
  Finding.LinesFit results ∧ w.Completed id (Finding.aggregate ids results) ∨
    ¬ Finding.LinesFit results ∧ w.Defective id

theorem Outcome.meanwhile (h : w.Outcome id ids results) (hm : w.Meanwhile id w') :
    w'.Outcome id ids results := by
  rcases h with ⟨hfit, r, hr, hstatus, hrows⟩ | ⟨hunfit, r, hr, hstatus, herror⟩
  · exact .inl ⟨hfit, r, hm.record.trans hr, hstatus, hm.rows.trans hrows⟩
  · exact .inr ⟨hunfit, r, hm.record.trans hr, hstatus, herror⟩

/-- The identifiers drawn for what the tools reported are distinct, and no other job has a finding
with one of them. -/
def IdsFree (w : World σ) (id : String) (ids : Nat → String) (results : List ToolResult) : Prop :=
  ((List.range (Finding.completeRaws results).length).map ids).Nodup ∧
    ∀ n < (Finding.completeRaws results).length, ∀ x ∈ w.store.rows, x.job ≠ id →
      x.finding.id ≠ ids n

theorem insertable_aggregate (hw : w.Stands id a) (ha : a ≠ .completed)
    (hids : w.IdsFree id ids results) :
    w.store.Insertable (Store.rowsOf id (Finding.aggregate ids results)) := by
  obtain ⟨hnodup, hfree⟩ := hids
  constructor
  · have hmap := congrArg (List.map Finding.id)
      (Store.map_finding_rowsOf id (Finding.aggregate ids results))
    rw [List.map_map] at hmap
    exact (congrArg List.Nodup hmap).mpr (Finding.nodup_map_id_aggregate hnodup)
  · intro row hrow x hx
    have hother : x.job ≠ id := fun hjob => by
      have hmem : x ∈ w.store.rowsFor id := List.mem_filter.mpr ⟨hx, by simpa using hjob⟩
      rw [hw.rows ha] at hmem
      exact List.not_mem_nil hmem
    have hfinding : row.finding ∈ Finding.aggregate ids results := by
      rw [← Store.map_finding_rowsOf id (Finding.aggregate ids results)]
      exact List.mem_map_of_mem hrow
    obtain ⟨n, hn, heq⟩ := Finding.mem_collect_iff.mp (Finding.mem_collect_of_mem_aggregate hfinding)
    rw [heq]
    exact hfree n hn x hx hother

/-- The store takes the aggregated findings exactly when their lines fit. -/
theorem Stands.complete_aggregate (hw : w.Stands id a) (ha : a.canMoveTo .completed)
    (hids : w.IdsFree id ids results) (now : Moment) (stats : Option ReviewStats) :
    (∃ store, w.store.complete now id (Finding.aggregate ids results) stats = .ok store ∧
        Finding.LinesFit results ∧
        (w.tell id .completed (.ok store)).2.Completed id (Finding.aggregate ids results)) ∨
      ∃ e, w.store.complete now id (Finding.aggregate ids results) stats = .error e ∧
        ¬ Finding.LinesFit results := by
  have hopen : a ≠ .completed := by
    rintro rfl
    exact absurd ha (by decide)
  obtain ⟨r, hr, rfl, -⟩ := hw.record
  have hinsertable := insertable_aggregate hw hopen hids
  cases hans : w.store.complete now id (Finding.aggregate ids results) stats with
  | ok store =>
    obtain ⟨r', hr', -, hall, -, rfl⟩ := Store.complete_eq_ok_iff.mp hans
    cases hr.symm.trans hr'
    refine .inl ⟨_, rfl, Finding.aggregate_holdsLine_iff.mp hall, _,
      Store.record?_update (fun _ => rfl) hr, rfl, ?_⟩
    refine (Store.rowsFor_append_rowsOf w.store id _).trans ?_
    rw [hw.rows hopen, List.nil_append]
  | error e =>
    refine .inr ⟨e, rfl, fun hfit => ?_⟩
    rw [Store.complete_eq_ok_iff.mpr
      ⟨r, hr, ha, Finding.aggregate_holdsLine_iff.mpr hfit, hinsertable, rfl⟩] at hans
    cases hans

/-- A completed job as it is read back. -/
theorem Stands.get_completed {findings : List Finding} (hw : w.Stands id a)
    (h : w.Completed id findings) :
    ∃ j, w.store.get id = .ok j ∧ j.status = .completed ∧ j.error = none ∧
      j.findings = Finding.ranked findings := by
  obtain ⟨r, hr, hstatus, hrows⟩ := h
  obtain ⟨r', hr', -, hfits⟩ := hw.record
  cases hr.symm.trans hr'
  refine ⟨w.store.toJob r, by rw [Store.get, hr], hstatus, hfits.1 (by simp [hstatus]), ?_⟩
  rw [← Store.findingsOf_eq_ranked hrows, ← Store.id_of_record? hr]
  rfl

/-- A job that has failed for a defect as it is read back. -/
theorem Stands.get_defective (hw : w.Stands id a) (h : w.Defective id) :
    ∃ j, w.store.get id = .ok j ∧ j.status = .failed ∧ j.error = some Pipeline.defectText ∧
      j.findings = [] := by
  obtain ⟨r, hr, hstatus, herror⟩ := h
  obtain ⟨r', hr', rfl, -⟩ := hw.record
  cases hr.symm.trans hr'
  refine ⟨w.store.toJob r, by rw [Store.get, hr], hstatus, herror, ?_⟩
  have hrows := hw.rows (by simp [hstatus])
  rw [← Store.id_of_record? hr] at hrows
  exact Store.findingsOf_eq_nil hrows

/-- A failure for a defect is granted. -/
theorem fail_defective (hw : w.Stands id a) (ha : a.isTerminal = false) (now : Moment) :
    (w.tell id .failed (w.store.fail now id Pipeline.defectText)).2.Defective id := by
  obtain ⟨r, hr, rfl, -⟩ := hw.record
  have hmove : r.status.canMoveTo .failed := JobStatus.canMoveTo_of_isTerminal ha rfl
  rw [Store.fail_eq_ok_iff.mpr ⟨r, hr, hmove, rfl⟩]
  exact ⟨_, Store.record?_update (fun _ => rfl) hr, rfl, rfl⟩

end World

/-! ### The course of a scan -/

/-- The scan is over but for its cleaning up: fetching or finding languages has failed, or the store
has decided on what the tools reported. -/
def World.Decided (w : World σ) (id : String) (ids : Nat → String) (log : List Use) : Prop :=
  Failed log ∨ ∃ path languages results cleaning,
    log = scanLog path languages results ++ cleaning ∧ (∀ u ∈ cleaning, ∃ p, u = .cleaned p) ∧
      w.Outcome id ids results

theorem World.Decided.cleaned {w : World σ} {id : String} {ids : Nat → String} {log : List Use}
    (h : w.Decided id ids log) (path : String) :
    w.Decided id ids (log ++ [.cleaned path]) := by
  rcases h with hfailed | ⟨path', languages, results, cleaning, rfl, hcleaning, houtcome⟩
  · exact .inl (hfailed.append _)
  · refine .inr ⟨path', languages, results, cleaning ++ [.cleaned path], List.append_assoc _ _ _,
      fun u hu => ?_, houtcome⟩
    rcases List.mem_append.mp hu with hold | hnew
    · exact hcleaning u hold
    · exact ⟨path, List.mem_singleton.mp hnew⟩

/-- What lies behind a pipeline at a point, as far as its findings go. -/
def Point.Course (path : String) (log : List Use) (w : World σ) (id : String) (ids : Nat → String) :
    Point → Prop
  | .load | .checkLoaded _ | .markCloning _ | .fetch _ => log = []
  | .checkUnfetched _ | .report _ => Failed log
  | .checkFetched | .markScanning | .detect => log = [.fetched (.ok path)]
  | .saveLanguages languages | .scan languages =>
    log = [.fetched (.ok path), .detected path (.ok languages)]
  | .checkScanned results => ∃ languages, log = scanLog path languages results
  | .complete findings _ => ∃ languages results, log = scanLog path languages results ∧
      findings = Finding.aggregate ids results
  | .markReviewing _ | .review _ | .checkReviewed .. => False
  | .giveUp message => Failed log ∨ ∃ languages results, log = scanLog path languages results ∧
      ¬ Finding.LinesFit results ∧ message = Pipeline.defectText
  | .cleanUp | .forget | .leave => w.Decided id ids log

/-- What lies behind a job at a moment of its run. -/
def Config.Course (id : String) (ids : Nat → String) (c : Config σ) : Prop :=
  match c.pipeline with
  | none => c.world.Decided id ids c.log
  | some p => p.findingId = ids ∧ p.point.Course p.path c.log c.world id ids

/-- Nobody asks a job to stop, and the identifiers drawn for its findings are new. -/
structure Config.Undisturbed (id : String) (ids : Nat → String) (c : Config σ) : Prop where
  quiet : c.world.signal id ≠ .fired
  idsFree : ∀ path languages results, .scanned path languages results ∈ c.log →
    c.world.IdsFree id ids results

/-- A move that disturbs nothing. -/
def Config.QuietMove (s : Stages σ) (id : String) (ids : Nat → String) (c c' : Config σ) : Prop :=
  c.Undisturbed id ids ∧ Config.Move s id c c'

namespace Pipeline

variable {s : Stages σ} {w w' : World σ} {p : Pipeline} {log : List Use} {id : String}
  {ids : Nat → String} {a : JobStatus}

theorem unlessFired_eq {next : Point} (h : w.signal p.job ≠ .fired) :
    unlessFired w p next = p.goTo next := by
  rw [unlessFired, Signal.isFired, if_neg (by simpa using h)]

theorem step_course (now : Moment) (hreview : s.review = none)
    (hfollows : w.Follows id (some p))
    (hquiet : Config.Undisturbed id ids (⟨w, some p, log⟩ : Config σ))
    (h : Config.Course id ids (⟨w, some p, log⟩ : Config σ)) :
    Config.Course id ids
      (⟨(p.step s now w).1, (p.step s now w).2, log ++ p.uses s w⟩ : Config σ) := by
  obtain ⟨rfl, a, hadmits, hw⟩ := hfollows
  obtain ⟨hids, h⟩ := h
  have hunfired := hquiet.quiet
  obtain ⟨job, serial, path, point⟩ := p
  cases point with
  | load =>
    obtain ⟨r, hr, -⟩ := hw.record
    have hget : w.store.get job = .ok (w.store.toJob r) := by rw [Store.get, hr]
    simp only [step, uses, List.append_nil, hget]
    exact ⟨hids, h⟩
  | checkLoaded address =>
    simp only [step, uses, List.append_nil, unlessFired_eq hunfired]
    exact ⟨hids, h⟩
  | markCloning address =>
    cases hadmits
    obtain ⟨store, hgranted, -⟩ := hw.transition (b := .cloning) rfl rfl
    simp only [step, uses, List.append_nil, hgranted]
    exact ⟨hids, h⟩
  | fetch address =>
    obtain rfl : log = [] := h
    simp only [step, uses, List.nil_append]
    split
    · next path' hanswer => exact ⟨hids, by rw [hanswer]; rfl⟩
    · next e hanswer => exact ⟨hids, failed_append_singleton [] (by rw [hanswer]; exact id)⟩
    · next e hanswer => exact ⟨hids, .inl (failed_append_singleton [] (by rw [hanswer]; exact id))⟩
  | checkUnfetched message =>
    simp only [step, uses, List.append_nil, unlessFired_eq hunfired]
    exact ⟨hids, h⟩
  | checkFetched =>
    simp only [step, uses, List.append_nil, unlessFired_eq hunfired]
    exact ⟨hids, h⟩
  | markScanning =>
    cases hadmits
    obtain ⟨store, hgranted, -⟩ := hw.transition (b := .scanning) rfl rfl
    simp only [step, uses, List.append_nil, hgranted]
    exact ⟨hids, h⟩
  | detect =>
    obtain rfl : log = [.fetched (.ok path)] := h
    simp only [step, uses]
    split
    · next languages hanswer => exact ⟨hids, by rw [hanswer]; rfl⟩
    · next e hanswer => exact ⟨hids, failed_append_singleton _ (by rw [hanswer]; exact id)⟩
    · next e hanswer => exact ⟨hids, .inl (failed_append_singleton _ (by rw [hanswer]; exact id))⟩
  | saveLanguages languages =>
    obtain ⟨store, hgranted, -⟩ := hw.setLanguages (languages.map Language.name)
    simp only [step, uses, List.append_nil, hgranted]
    exact ⟨hids, h⟩
  | scan languages =>
    obtain rfl : log = [.fetched (.ok path), .detected path (.ok languages)] := h
    exact ⟨hids, languages, rfl⟩
  | checkScanned results =>
    obtain ⟨languages, rfl⟩ := h
    have hafter : afterScan s (Finding.aggregate ids results) =
        .complete (Finding.aggregate ids results) none := by
      rw [afterScan, hreview, Option.isNone_none, Bool.or_true, if_pos rfl]
    simp only [step, uses, List.append_nil, unlessFired_eq hunfired, hids, hafter]
    exact ⟨hids, languages, results, rfl, rfl⟩
  | markReviewing findings => exact absurd h id
  | review findings => exact absurd h id
  | checkReviewed findings stats => exact absurd h id
  | complete findings stats =>
    obtain ⟨languages, results, rfl, rfl⟩ := h
    have hmove : a.canMoveTo .completed := by rcases hadmits with rfl | rfl <;> rfl
    have hfree := hquiet.idsFree path languages results (by simp [scanLog])
    simp only [step, uses, List.append_nil]
    rcases hw.complete_aggregate hmove hfree now stats with
      ⟨store, hgranted, hfit, hcompleted⟩ | ⟨e, hrefused, hunfit⟩
    · rw [hgranted]
      exact ⟨hids, .inr ⟨path, languages, results, [], rfl, by simp, .inl ⟨hfit, hcompleted⟩⟩⟩
    · rw [hrefused]
      exact ⟨hids, .inr ⟨languages, results, rfl, hunfit, rfl⟩⟩
  | report message =>
    simp only [step, uses, List.append_nil, unlessRefused]
    split
    · exact ⟨hids, .inl h⟩
    · exact ⟨hids, .inl h⟩
  | giveUp message =>
    simp only [step, uses, List.append_nil]
    rcases h with hfailed | ⟨languages, results, rfl, hunfit, rfl⟩
    · exact ⟨hids, .inl hfailed⟩
    · exact ⟨hids, .inr ⟨path, languages, results, [], rfl, by simp,
        .inr ⟨hunfit, World.fail_defective hw hadmits.1 now⟩⟩⟩
  | cleanUp =>
    simp only [step, uses]
    split
    · rw [List.append_nil]
      exact ⟨hids, h⟩
    · exact ⟨hids, World.Decided.cleaned h path⟩
  | forget =>
    simp only [step, uses, List.append_nil]
    exact ⟨hids, h⟩
  | leave =>
    simp only [step, uses, List.append_nil]
    exact h

end Pipeline

theorem World.Decided.meanwhile {w w' : World σ} {id : String} {ids : Nat → String} {log : List Use}
    (h : w.Decided id ids log) (hm : w.Meanwhile id w') : w'.Decided id ids log := by
  rcases h with hfailed | ⟨path, languages, results, cleaning, hlog, hcleaning, houtcome⟩
  · exact .inl hfailed
  · exact .inr ⟨path, languages, results, cleaning, hlog, hcleaning, houtcome.meanwhile hm⟩

theorem Point.Course.meanwhile {point : Point} {path : String} {log : List Use} {w w' : World σ}
    {id : String} {ids : Nat → String} (h : point.Course path log w id ids)
    (hm : w.Meanwhile id w') : point.Course path log w' id ids := by
  cases point with
  | cleanUp => exact World.Decided.meanwhile h hm
  | forget => exact World.Decided.meanwhile h hm
  | leave => exact World.Decided.meanwhile h hm
  | _ => exact h

theorem Config.QuietMove.course {s : Stages σ} {id : String} {ids : Nat → String} {c c' : Config σ}
    (hreview : s.review = none) (hsound : c.Sound id) (hmove : Config.QuietMove s id ids c c')
    (h : c.Course id ids) : c'.Course id ids := by
  obtain ⟨hquiet, hmove⟩ := hmove
  cases hmove with
  | step now hstep =>
    obtain ⟨hplain, rfl⟩ := Pipeline.step_recording_eq_iff.mp hstep
    obtain ⟨rfl, rfl⟩ := Prod.ext_iff.mp hplain
    exact Pipeline.step_course now hreview hsound.follows hquiet h
  | @meanwhile w w' q log hm =>
    cases q with
    | none => exact World.Decided.meanwhile h hm
    | some p => exact ⟨h.1, h.2.meanwhile hm⟩

/-! ### Runs that nothing disturbs -/

/-- The identifiers of the findings of a job that is started now. -/
def Service.nextFindingId (s : Service σ) (n : Nat) : String :=
  Identifier.ofPair (s.issued + 1) (n + 1)

/-- Work that leaves its setting as it is leaves the world as it is. -/
theorem World.during_eq_self {α : Type} {w : World σ} {id : String} {x : α}
    {work : Setting σ → α × Setting σ} (hwork : ∀ st, work st = (x, st))
    (hquiet : w.signal id ≠ .fired) : w.during id work = (x, w) := by
  have hsignal : (w.signal id).isFired = false := by simpa [Signal.isFired] using hquiet
  simp only [during, hwork, hsignal, Bool.false_eq_true, if_false]

theorem World.signal_dropSignal (w : World σ) (id : String) :
    (w.dropSignal id).signal id ≠ .fired := by
  rw [ne_eq, signal_eq_fired_iff, dropSignal, List.lookup_eq_none_iff.mpr]
  · simp
  · intro e he
    have hne : e.1 ≠ id := by simpa using (List.mem_filter.mp he).2
    simpa using hne.symm

theorem Pipeline.step_prompt (path : String) (results : List ToolResult) (now : Moment)
    {w : World Unit} {p : Pipeline} (hquiet : w.signal p.job ≠ .fired) :
    (p.step (.prompt path results) now w).1.signal p.job ≠ .fired ∧
      ∀ u ∈ p.uses (.prompt path results) w, u.Succeeded ∧
        ∀ path' languages results', u = .scanned path' languages results' → results' = results := by
  obtain ⟨job, serial, path', point⟩ := p
  have htell : ∀ status reply, (w.tell job status reply).2.signal job ≠ .fired := by
    intro status reply
    cases reply <;> exact hquiet
  have hstill : ∀ {α : Type} (x : α), w.during job (fun st => (x, st)) = (x, w) :=
    fun x => World.during_eq_self (fun _ => rfl) hquiet
  cases point with
  | load =>
    simp only [step, uses]
    split <;> exact ⟨hquiet, by simp⟩
  | markCloning address => exact ⟨htell _ _, by simp [uses]⟩
  | fetch address =>
    simp only [step, uses, Stages.prompt, hstill]
    exact ⟨hquiet, by simp [Use.Succeeded]⟩
  | markScanning => exact ⟨htell _ _, by simp [uses]⟩
  | detect =>
    simp only [step, uses, Stages.prompt, hstill]
    exact ⟨hquiet, by simp [Use.Succeeded]⟩
  | saveLanguages languages =>
    simp only [step, uses]
    split <;> exact ⟨hquiet, by simp⟩
  | scan languages =>
    simp only [step, uses, Stages.prompt, hstill]
    exact ⟨hquiet, by simp [Use.Succeeded]⟩
  | markReviewing findings => exact ⟨htell _ _, by simp [uses]⟩
  | review findings => exact ⟨hquiet, by simp [uses, Stages.prompt]⟩
  | complete findings stats => exact ⟨htell _ _, by simp [uses]⟩
  | report message => exact ⟨htell _ _, by simp [uses]⟩
  | giveUp message => exact ⟨htell _ _, by simp [uses]⟩
  | cleanUp =>
    simp only [step, uses]
    split
    · exact ⟨hquiet, by simp⟩
    · exact ⟨hquiet, by simp [Use.Succeeded]⟩
  | forget => exact ⟨World.signal_dropSignal w job, by simp [uses]⟩
  | _ => exact ⟨hquiet, by simp [uses]⟩

/-- A job with prompt stages in a world of its own, at a moment of a run that nothing disturbs. -/
structure Config.Calm (id : String) (results : List ToolResult) (c : Config Unit) : Prop where
  job : ∀ p, c.pipeline = some p → p.job = id
  quiet : c.world.signal id ≠ .fired
  rows : ∀ x ∈ c.world.store.rows, x.job = id
  succeeded : ∀ u ∈ c.log, u.Succeeded
  scanned : ∀ path languages results', .scanned path languages results' ∈ c.log →
    results' = results

theorem Config.Calm.step {id path : String} {results : List ToolResult} (now : Moment)
    {w : World Unit} {p : Pipeline} {log : List Use}
    (h : Config.Calm id results (⟨w, some p, log⟩ : Config Unit)) :
    Config.Calm id results (⟨(p.step (.prompt path results) now w).1,
      (p.step (.prompt path results) now w).2, log ++ p.uses (.prompt path results) w⟩ :
        Config Unit) := by
  obtain rfl : p.job = id := h.job p rfl
  obtain ⟨hquiet, huses⟩ := Pipeline.step_prompt path results now h.quiet
  refine ⟨fun p' hp' => (Pipeline.step_next (Prod.ext rfl hp')).1, hquiet, fun x hx => ?_,
    fun u hu => ?_, fun path' languages results' hmem => ?_⟩
  · rcases (Pipeline.step_effect _ now w p).rows hx with hold | hown
    · exact h.rows x hold
    · exact hown
  · rcases List.mem_append.mp hu with hold | hnew
    · exact h.succeeded u hold
    · exact (huses u hnew).1
  · rcases List.mem_append.mp hmem with hold | hnew
    · exact h.scanned path' languages results' hold
    · exact (huses _ hnew).2 path' languages results' rfl

namespace Service

/-- A request to a new service with prompt stages can be followed to its end without disturbance. -/
theorem exists_quiet_run {path : String} {results : List ToolResult} {job : Job} {s₁ : Service Unit}
    (hstart : (Service.prompt path results).start requestMoment requestAddress = (.ok job, s₁))
    (hids : ((List.range (Finding.completeRaws results).length).map
      (Service.prompt path results).nextFindingId).Nodup) :
    ∃ c, ReflTransGen
        (Config.QuietMove s₁.stages job.id (Service.prompt path results).nextFindingId)
        (s₁.config job.id) c ∧
      c.pipeline = none ∧ c.Calm job.id results := by
  have hreachable := prompt_reachable path results
  obtain ⟨hpipeline, -, hquiet⟩ := started hreachable hstart
  have hstep := Step.start (s := Service.prompt path results) requestMoment requestAddress
  rw [hstart] at hstep
  have hstages : s₁.stages = .prompt path results := (hstep.keeps job.id).1
  have hrows : s₁.world.store.rows = [] := by
    have hsame := (Service.prompt path results).rows_start requestMoment requestAddress
    rw [hstart] at hsame
    exact hsame
  have hcalm : Config.Calm job.id results
      (⟨s₁.world, some (.initial job.id 1), []⟩ : Config Unit) := by
    refine ⟨fun p hp => ?_, hquiet, by simp [hrows], by simp, by simp⟩
    cases hp
    rfl
  obtain ⟨w, log, hend, hrun⟩ := Config.exists_run_to_end (Q := Config.Calm job.id results)
    (.prompt path results) job.id requestMoment (fun _ _ _ h => h.step requestMoment) _ _ _ hcalm
  refine ⟨⟨w, none, log⟩, ?_, rfl, hend⟩
  rw [hstages, config, hpipeline]
  refine hrun.lift (fun c => c) fun c c' hmove => ⟨⟨hmove.1.quiet, ?_⟩, hmove.2⟩
  intro path' languages results' hmem
  obtain rfl := hmove.1.scanned path' languages results' hmem
  exact ⟨hids, fun n hn x hx hother => absurd (hmove.1.rows x hx) hother⟩

end Service

/-! ### What becomes of the findings -/

/-- An environment in which programs print fixed texts. -/
def Environment.printing (outputs : List (String × String)) : Environment Unit where
  run inv signal outside :=
    ((.ok ⟨inv.program, 0, (outputs.lookup inv.program).getD "", ""⟩, signal), outside)
  readBack _ outside := (.ok "", outside)
  discard _ outside := (.ok (), outside)

namespace Service

variable {s s₁ : Service σ} {now : Moment} {address : String} {job : Job} {c : Config σ}

theorem quiet_run_course (hs : s.Reachable) (hstart : s.start now address = (.ok job, s₁))
    (hreview : s.stages.review = none)
    (hrun : ReflTransGen (Config.QuietMove s₁.stages job.id s.nextFindingId)
      (s₁.config job.id) c) :
    c.Sound job.id ∧ c.Course job.id s.nextFindingId := by
  have hstages : s₁.stages.review = none := by
    have hkeeps := (Step.start (s := s) now address).keeps job.id
    rw [hstart] at hkeeps
    rw [hkeeps.1, hreview]
  induction hrun with
  | refl =>
    refine ⟨sound_started hs hstart, ?_⟩
    obtain ⟨hpipeline, -, -⟩ := started hs hstart
    rw [config, hpipeline]
    exact ⟨rfl, rfl⟩
  | tail _ hmove ih =>
    exact ⟨ih.1.run (.single hmove.2.faulty), hmove.course hstages ih.1 ih.2⟩

/-- What a quiet run without a review comes to, if nothing fails before the tools run. -/
theorem quiet_run_outcome (hs : s.Reachable) (hstart : s.start now address = (.ok job, s₁))
    (hreview : s.stages.review = none)
    (hrun : ReflTransGen (Config.QuietMove s₁.stages job.id s.nextFindingId) (s₁.config job.id) c)
    (hend : c.pipeline = none) (hsucceeded : ∀ u ∈ c.log, u.Succeeded) :
    (∃ a, c.world.Stands job.id a) ∧ ∃ path languages results cleaning,
      c.log = scanLog path languages results ++ cleaning ∧
        c.world.Outcome job.id s.nextFindingId results := by
  obtain ⟨hsound, hcourse⟩ := quiet_run_course hs hstart hreview hrun
  have hfollows := hsound.follows
  rw [hend] at hfollows
  obtain ⟨a, -, hstands⟩ := hfollows
  rw [Config.Course, hend] at hcourse
  rcases hcourse with ⟨u, hu, hfailed⟩ | ⟨path, languages, results, cleaning, hlog, -, houtcome⟩
  · exact absurd (hsucceeded u hu) hfailed
  · exact ⟨⟨a, hstands⟩, path, languages, results, cleaning, hlog, houtcome⟩

/-- **What the tools reported is kept as a whole or lost as a whole.** A job without a review runs to
its end; nobody asks it to stop, its identifiers are new, and fetching and finding languages succeed.
Then it is completed with exactly what aggregation makes of the reports, if and only if every line
number that counts is below `Json.wordBound`. Otherwise it fails for a defect, without findings. -/
theorem findings_kept_iff (hs : s.Reachable) (hstart : s.start now address = (.ok job, s₁))
    (hreview : s.stages.review = none)
    (hrun : ReflTransGen (Config.QuietMove s₁.stages job.id s.nextFindingId) (s₁.config job.id) c)
    (hend : c.pipeline = none) (hsucceeded : ∀ u ∈ c.log, u.Succeeded) :
    ∃ path languages results cleaning j,
      c.log = scanLog path languages results ++ cleaning ∧ c.world.store.get job.id = .ok j ∧
      (j.status = .completed ∧ j.error = none ∧
          j.findings = Finding.aggregate s.nextFindingId results ↔ Finding.LinesFit results) ∧
      (¬ Finding.LinesFit results →
        j.status = .failed ∧ j.error = some Pipeline.defectText ∧ j.findings = []) := by
  obtain ⟨⟨a, hstands⟩, path, languages, results, cleaning, hlog, houtcome⟩ :=
    quiet_run_outcome hs hstart hreview hrun hend hsucceeded
  rcases houtcome with ⟨hfit, hcompleted⟩ | ⟨hunfit, hdefective⟩
  · obtain ⟨j, hget, hstatus, herror, hfindings⟩ := hstands.get_completed hcompleted
    rw [Finding.ranked_aggregate] at hfindings
    exact ⟨path, languages, results, cleaning, j, hlog, hget,
      iff_of_true ⟨hstatus, herror, hfindings⟩ hfit, fun hunfit => absurd hfit hunfit⟩
  · obtain ⟨j, hget, hstatus, herror, hfindings⟩ := hstands.get_defective hdefective
    refine ⟨path, languages, results, cleaning, j, hlog, hget, iff_of_false ?_ hunfit,
      fun _ => ⟨hstatus, herror, hfindings⟩⟩
    rintro ⟨hcompleted, -⟩
    exact absurd (hstatus.symm.trans hcompleted) (by decide)

/-- One finding of one tool, on a line that the table can hold. -/
def smallResults : List ToolResult :=
  [{ tool := "bandit", findings := [⟨"app.py", "t", "high", some 1, some "B1"⟩] }]

/-- A scan that reports it. -/
theorem findings_kept_iff_small :
    ∃ job s₁ c, (Service.prompt "checkout" smallResults).Reachable ∧
      (Service.prompt "checkout" smallResults).start requestMoment requestAddress = (.ok job, s₁) ∧
      (Service.prompt "checkout" smallResults).stages.review = none ∧
      ReflTransGen (Config.QuietMove s₁.stages job.id
        (Service.prompt "checkout" smallResults).nextFindingId) (s₁.config job.id) c ∧
      c.pipeline = none ∧ (∀ u ∈ c.log, u.Succeeded) ∧
      ∃ j, c.world.store.get job.id = .ok j ∧ j.status = .completed ∧ j.error = none ∧
        j.findings =
          Finding.aggregate (Service.prompt "checkout" smallResults).nextFindingId smallResults := by
  have hreachable := prompt_reachable "checkout" smallResults
  obtain ⟨job, s₁, hstart⟩ := start_prompt "checkout" smallResults
  obtain ⟨c, hrun, hend, hcalm⟩ := exists_quiet_run hstart (by decide)
  obtain ⟨path, languages, results, cleaning, j, hlog, hget, hkept, -⟩ :=
    findings_kept_iff hreachable hstart rfl hrun hend hcalm.succeeded
  obtain rfl := hcalm.scanned path languages results (by simp [hlog, scanLog])
  exact ⟨job, s₁, c, hreachable, hstart, rfl, hrun, hend, hcalm.succeeded, j, hget,
    hkept.mpr (by decide)⟩

/-- The same with a finding of another tool, on a line whose number takes 65 bits. -/
def oversizedResults : List ToolResult :=
  { tool := "semgrep", findings := [⟨"app.py", "m", "error", some Json.wordBound, some "r"⟩] } ::
    smallResults

/-- What the two tools print to report so. -/
def oversizedReports : List (String × String) :=
  [("semgrep", "\x7b\"results\":[\x7b\"path\":\"app.py\",\"check_id\":\"r\"," ++
      "\"start\":\x7b\"line\":9223372036854775808\x7d," ++
      "\"extra\":\x7b\"message\":\"m\",\"severity\":\"ERROR\"\x7d\x7d]\x7d"),
    ("bandit", "\x7b\"results\":[\x7b\"filename\":\"app.py\",\"line_number\":1," ++
      "\"issue_text\":\"t\",\"issue_severity\":\"HIGH\",\"test_id\":\"B1\"\x7d]\x7d")]

/-- Both tools succeed and the finding of the second one counts, but the number that the first one
prints makes the job fail and lose it. -/
theorem findings_lost :
    (Runner.runScanners ⟨⟨[⟨.semgrep, []⟩, ⟨.bandit, ["python"]⟩]⟩, .whole 300, 1⟩
        (.printing oversizedReports) "checkout" [.known .python] none ⟨.quiet, none, ()⟩).1 =
      oversizedResults ∧
    (∀ r ∈ oversizedResults, r.succeeded) ∧
    ("bandit", ⟨"app.py", "t", "high", some 1, some "B1"⟩) ∈
      Finding.completeRaws oversizedResults ∧
    ∃ job s₁ c, (Service.prompt "checkout" oversizedResults).start requestMoment requestAddress =
        (.ok job, s₁) ∧
      (Service.prompt "checkout" oversizedResults).stages.review = none ∧
      ReflTransGen (Config.QuietMove s₁.stages job.id
        (Service.prompt "checkout" oversizedResults).nextFindingId) (s₁.config job.id) c ∧
      c.pipeline = none ∧ (∀ u ∈ c.log, u.Succeeded) ∧
      ∃ j, c.world.store.get job.id = .ok j ∧ j.status = .failed ∧
        j.error = some Pipeline.defectText ∧ j.findings = [] := by
  refine ⟨by decide +kernel, by decide, by decide, ?_⟩
  obtain ⟨job, s₁, hstart⟩ := start_prompt "checkout" oversizedResults
  obtain ⟨c, hrun, hend, hcalm⟩ := exists_quiet_run hstart (by decide)
  obtain ⟨⟨a, hstands⟩, path, languages, results, cleaning, hlog, houtcome⟩ :=
    quiet_run_outcome (prompt_reachable "checkout" oversizedResults) hstart rfl hrun hend
      hcalm.succeeded
  obtain rfl := hcalm.scanned path languages results (by simp [hlog, scanLog])
  rcases houtcome with ⟨hfit, -⟩ | ⟨-, hdefective⟩
  · exact absurd hfit (by decide)
  · exact ⟨job, s₁, c, hstart, rfl, hrun, hend, hcalm.succeeded,
      hstands.get_defective hdefective⟩

end Service

end RepoAudit
