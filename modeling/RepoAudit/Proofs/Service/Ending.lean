import RepoAudit.Proofs.Service.Lifecycle
import RepoAudit.Proofs.Service.Reachable

/-!
# How a scan ends

Whatever the stages answer, whenever the signal of a job fires, and even when its completion is
rolled back, the pipeline of a job leaves nothing half done.

* `Config.Tidy` — which uses of the stages lie behind a pipeline at its point: nothing before the
  repository is fetched, then work in its directory only, and its removal last;
* `Config.Unlisted` — the signal is out of the table when the pipeline has only to leave;
* `Service.started` — the job of a request that is granted, before its pipeline has moved;
* `Service.scan_ends` — **a job started in any reachable service ends completed or failed, with an
  ascending history, its directory removed and its signal gone**.
-/

namespace RepoAudit

open Relation

variable {σ : Type}

/-! ### The directory -/

/-- No repository was fetched. -/
def Idle (log : List Use) : Prop := ∀ path, .fetched (.ok path) ∉ log

/-- A repository was fetched to a directory, and all work since was done there. -/
def Working (path : String) (log : List Use) : Prop :=
  ∃ uses, log = .fetched (.ok path) :: uses ∧ ∀ u ∈ uses, u.WorksIn path

/-- Every directory that a repository was fetched to was worked in and then removed, once. -/
def Cleared (log : List Use) : Prop :=
  ∀ path, path ≠ "" → .fetched (.ok path) ∈ log →
    ∃ uses, log = .fetched (.ok path) :: uses ++ [.cleaned path] ∧ ∀ u ∈ uses, u.WorksIn path

/-- Either there is no directory yet, or the work so far was done in it. -/
def Open (path : String) (log : List Use) : Prop := path = "" ∧ Idle log ∨ Working path log

theorem idle_nil : Idle [] := fun _ => List.not_mem_nil

theorem Open.worked {path : String} {log : List Use} {u : Use} (h : Open path log)
    (hu : u.WorksIn path) : Open path (log ++ [u]) := by
  rcases h with ⟨hpath, hidle⟩ | ⟨uses, rfl, huses⟩
  · refine .inl ⟨hpath, fun path' hmem => ?_⟩
    rcases List.mem_append.mp hmem with hold | hnew
    · exact hidle path' hold
    · rw [← List.mem_singleton.mp hnew] at hu
      exact hu
  · refine .inr ⟨uses ++ [u], rfl, fun x hx => ?_⟩
    rcases List.mem_append.mp hx with hold | hnew
    · exact huses x hold
    · rwa [List.mem_singleton.mp hnew]

theorem fetched_eq_of_mem {path path' : String} {uses : List Use}
    (huses : ∀ u ∈ uses, u.WorksIn path)
    (h : Use.fetched (.ok path') ∈ Use.fetched (.ok path) :: uses) : path' = path := by
  rcases List.mem_cons.mp h with heq | hlater
  · injection heq with heq
    injection heq
  · exact absurd (huses _ hlater) id

/-- Cleaning up after the work, or having nothing to clean up. -/
theorem Open.cleared {path : String} {log : List Use} (h : Open path log) :
    Cleared (log ++ if path = "" then [] else [.cleaned path]) := by
  intro path' hne hmem
  rcases h with ⟨rfl, hidle⟩ | ⟨uses, rfl, huses⟩
  · rw [if_pos rfl, List.append_nil] at hmem
    exact absurd hmem (hidle path')
  · have hfetched : Use.fetched (.ok path') ∈ Use.fetched (.ok path) :: uses := by
      rcases List.mem_append.mp hmem with hold | hnew
      · exact hold
      · split at hnew <;> simp at hnew
    cases fetched_eq_of_mem huses hfetched
    exact ⟨uses, by rw [if_neg hne], huses⟩

/-- How far a pipeline is with its directory. -/
inductive Phase where
  | unfetched
  | opened
  | cleaned

/-- How far a pipeline is at a point. -/
def Point.phase : Point → Phase
  | .load | .checkLoaded _ | .markCloning _ | .fetch _ => .unfetched
  | .forget | .leave => .cleaned
  | _ => .opened

/-- The uses that fit a phase. -/
def Phase.Fits (path : String) (log : List Use) : Phase → Prop
  | .unfetched => path = "" ∧ log = []
  | .opened => Open path log
  | .cleaned => Cleared log

/-- The uses so far fit the point of the pipeline. -/
def Config.Tidy (c : Config σ) : Prop :=
  match c.pipeline with
  | none => Cleared c.log
  | some p => p.point.phase.Fits p.path c.log

namespace Pipeline

variable {s : Stages σ} {w w' : World σ} {p : Pipeline} {log : List Use}

/-- A pipeline whose directory may be open can always give up. -/
theorem fits_unlessFired {next : Point} (hopen : Open p.path log)
    (hnext : next.phase.Fits p.path log) :
    (unlessFired w p next).point.phase.Fits (unlessFired w p next).path log := by
  rw [unlessFired]
  split
  · exact hopen
  · exact hnext

theorem fits_unlessRefused {r : Except JobError Unit} {next : Point} (hopen : Open p.path log)
    (hnext : next.phase.Fits p.path log) :
    (p.unlessRefused r next).point.phase.Fits (p.unlessRefused r next).path log := by
  cases r with
  | ok _ => exact hnext
  | error e => exact hopen

theorem open_of_unfetched {path : String} (h : path = "" ∧ log = []) : Open path log :=
  .inl ⟨h.1, h.2 ▸ idle_nil⟩

theorem step_tidy (s : Stages σ) (now : Moment)
    (h : Config.Tidy (⟨w, some p, log⟩ : Config σ)) :
    Config.Tidy (⟨(p.step s now w).1, (p.step s now w).2, log ++ p.uses s w⟩ : Config σ) := by
  obtain ⟨job, serial, path, point⟩ := p
  cases point with
  | load =>
    simp only [step, uses, List.append_nil]
    split
    · exact h
    · exact open_of_unfetched h
  | checkLoaded address =>
    simp only [step, uses, List.append_nil]
    exact fits_unlessFired (open_of_unfetched h) h
  | markCloning address =>
    simp only [step, uses, List.append_nil]
    exact fits_unlessRefused (open_of_unfetched h) h
  | fetch address =>
    obtain ⟨rfl, rfl⟩ := h
    simp only [step, uses, List.nil_append]
    split
    · next path' hanswer => exact .inr ⟨[], by rw [hanswer], by simp⟩
    · next e hanswer => exact .inl ⟨rfl, by simp [Idle, hanswer]⟩
    · next e hanswer => exact .inl ⟨rfl, by simp [Idle, hanswer]⟩
  | checkUnfetched message =>
    simp only [step, uses, List.append_nil]
    exact fits_unlessFired h h
  | checkFetched =>
    simp only [step, uses, List.append_nil]
    exact fits_unlessFired h h
  | markScanning =>
    simp only [step, uses, List.append_nil]
    exact fits_unlessRefused h h
  | detect =>
    have hworked : Open path (log ++ [.detected path (w.during job (s.detect path)).1]) :=
      Open.worked h rfl
    simp only [step, uses]
    split <;> exact hworked
  | saveLanguages languages =>
    simp only [step, uses, List.append_nil]
    split <;> exact h
  | scan languages => exact Open.worked h rfl
  | checkScanned results =>
    simp only [step, uses, List.append_nil]
    refine fits_unlessFired h ?_
    rw [afterScan]
    split <;> exact h
  | markReviewing findings =>
    simp only [step, uses, List.append_nil]
    exact fits_unlessRefused h h
  | review findings =>
    simp only [step, uses]
    split
    · next hnone =>
      rw [hnone, Option.isNone_none, if_pos rfl, List.append_nil]
      exact h
    · next review hsome =>
      rw [hsome, Option.isNone_some, if_neg Bool.false_ne_true]
      have hworked : Open path (log ++ [.reviewed path findings]) := Open.worked h rfl
      split <;> exact hworked
  | checkReviewed findings stats =>
    simp only [step, uses, List.append_nil]
    exact fits_unlessFired h h
  | complete findings stats =>
    simp only [step, uses, List.append_nil]
    exact fits_unlessRefused h h
  | report message =>
    simp only [step, uses, List.append_nil]
    exact fits_unlessRefused h h
  | giveUp message =>
    simp only [step, uses, List.append_nil]
    exact h
  | cleanUp =>
    exact Open.cleared h
  | forget =>
    simp only [step, uses, List.append_nil]
    exact h
  | leave =>
    simp only [step, uses, List.append_nil]
    exact h

/-- A roll back uses nothing and leaves the directory to be removed. -/
theorem Advance.tidy {q : Option Pipeline} (hadvance : p.Advance s w w' q)
    (h : Config.Tidy (⟨w, some p, log⟩ : Config σ)) :
    Config.Tidy (⟨w', q, log ++ p.uses s w⟩ : Config σ) := by
  cases hadvance with
  | step now => exact step_tidy s now h
  | rolledBack e findings stats hpoint =>
    obtain ⟨job, serial, path, point⟩ := p
    cases hpoint
    simp only [uses, List.append_nil]
    exact h

end Pipeline

theorem Config.FaultyMove.tidy {s : Stages σ} {id : String} {c c' : Config σ}
    (hmove : Config.FaultyMove s id c c') (h : c.Tidy) : c'.Tidy := by
  cases hmove with
  | advance hadvance =>
    obtain ⟨hplain, rfl⟩ := Pipeline.advance_recording_iff.mp hadvance
    exact hplain.tidy h
  | meanwhile q log hm => exact h

/-! ### The signal -/

/-- The signal is out of the table once the pipeline has only to leave. -/
def Config.Unlisted (id : String) (c : Config σ) : Prop :=
  (∀ p, c.pipeline = some p → p.job = id ∧ (p.point = .leave → ¬ c.world.Listed id)) ∧
    (c.pipeline = none → ¬ c.world.Listed id)

namespace Pipeline

variable {s : Stages σ} {w w' : World σ} {p : Pipeline}

theorem step_unlisted {id : String} {log log' : List Use} (s : Stages σ) (now : Moment)
    (h : Config.Unlisted id (⟨w, some p, log⟩ : Config σ)) :
    Config.Unlisted id (⟨(p.step s now w).1, (p.step s now w).2, log'⟩ : Config σ) := by
  obtain ⟨hjob, hleave⟩ := h.1 p rfl
  refine ⟨fun p' hp' => ?_, fun hnone => ?_⟩
  · have hstep : p.step s now w = ((p.step s now w).1, some p') := Prod.ext rfl hp'
    obtain ⟨hsame, -, hforget⟩ := step_next hstep
    refine ⟨hsame.trans hjob, fun hpoint => ?_⟩
    obtain ⟨job, serial, path, point⟩ := p
    cases hforget hpoint
    cases hjob
    simp [step, World.Listed, World.dropSignal]
  · obtain ⟨job, serial, path, point⟩ := p
    cases point_of_step_none hnone
    exact hleave rfl

theorem Advance.unlisted {id : String} {q : Option Pipeline} {log log' : List Use}
    (hadvance : p.Advance s w w' q) (h : Config.Unlisted id (⟨w, some p, log⟩ : Config σ)) :
    Config.Unlisted id (⟨w', q, log'⟩ : Config σ) := by
  cases hadvance with
  | step now => exact step_unlisted s now h
  | rolledBack e findings stats hpoint =>
    refine ⟨fun p' hp' => ?_, fun hnone => absurd hnone (by simp)⟩
    cases hp'
    exact ⟨(h.1 p rfl).1, fun hleave => absurd hleave (by simp [goTo])⟩

end Pipeline

theorem Config.FaultyMove.unlisted {s : Stages σ} {id : String} {c c' : Config σ}
    (hmove : Config.FaultyMove s id c c') (h : c.Unlisted id) : c'.Unlisted id := by
  cases hmove with
  | advance hadvance => exact (Pipeline.advance_recording_iff.mp hadvance).1.unlisted h
  | meanwhile q log hm =>
    refine ⟨fun p hp => ?_, fun hnone => mt hm.listed.mp (h.2 hnone)⟩
    obtain ⟨hjob, hleave⟩ := h.1 p hp
    exact ⟨hjob, fun hpoint => mt hm.listed.mp (hleave hpoint)⟩

/-! ### The beginning -/

namespace Service

variable {s s₁ : Service σ} {now : Moment} {address : String} {job : Job}

theorem history_withJob (s : Service σ) (job : Job) (store : Store) :
    (s.withJob job store).world.history job.id = s.world.history job.id ++ [job.status] := by
  have happend := World.history_append s.world ⟨job.id, job.status, true⟩ job.id
  rwa [if_pos ⟨rfl, rfl⟩] at happend

/-- A signal that is new in the table has not fired. -/
theorem signal_withJob (store : Store) (h : ¬ s.world.Listed job.id) :
    (s.withJob job store).world.signal job.id ≠ .fired := by
  have hnone : s.world.signals.lookup job.id = none := by
    refine List.lookup_eq_none_iff.mpr fun e he => ?_
    have hne : job.id ≠ e.1 := fun heq => h (heq ▸ List.mem_map_of_mem he)
    simpa using hne
  rw [ne_eq, World.signal_eq_fired_iff, withJob, List.lookup_append, hnone]
  simp

/-- A job that has just been stored stands at the first stage, and its signal has not fired. -/
theorem stands_withJob {store : Store} (hs : s.Sound) (hstatus : job.status = .pending)
    (herror : job.error = none) (hcreate : s.world.store.create now job = .ok store) :
    (s.withJob job store).world.Stands job.id .pending ∧
      (s.withJob job store).world.signal job.id ≠ .fired := by
  obtain ⟨hrows, hhistory, hunlisted⟩ := hs.owned.nothing (record?_of_create hcreate)
  obtain ⟨⟨expires, hr⟩, hsame⟩ := Store.record?_create hcreate
  have hafter := s.history_withJob job store
  rw [hhistory, hstatus, List.nil_append] at hafter
  refine ⟨⟨?_, ?_, ?_, ?_, ?_⟩, signal_withJob store hunlisted⟩
  · refine ⟨_, hr, hstatus, fun _ => herror, fun hfailed => ?_⟩
    exact absurd (hstatus.symm.trans hfailed) (by decide)
  · intro _
    show store.rows.filter (fun x => x.job = job.id) = []
    rw [hsame]
    exact hrows
  · rw [hafter]
    exact .singleton _
  · rw [hafter]
    rfl
  · rw [hafter]
    rfl

/-- What a granted request leaves for the pipeline of its job. -/
theorem started (hs : s.Reachable) (hstart : s.start now address = (.ok job, s₁)) :
    s₁.pipelineOf job.id = some (.initial job.id (s.issued + 1)) ∧
      s₁.world.Stands job.id .pending ∧ s₁.world.signal job.id ≠ .fired := by
  have hout := s.start_outcome now address
  rw [hstart] at hout
  generalize hanswer : (Except.ok job : Except StartError Job) = answer at hout
  cases hout with
  | rejected e => cases hanswer
  | refused job e => cases hanswer
  | stored hstatus herror hcreate hclosed => cases hanswer
  | @handedOver job' store hstatus herror hcreate hopen =>
    cases hanswer
    have hsound : Sound _ := hstart ▸ hs.sound.start_sound now address
    refine ⟨?_, stands_withJob hs.sound hstatus herror hcreate⟩
    exact pipelineOf_of_mem hsound (List.mem_append_right _ List.mem_cons_self)

end Service

/-! ### The end -/

/-- A job has ended: it is completed without an error, or failed with an error that says something
and without findings; the stages it was granted ascend from the first to the only terminal one,
which is the last. -/
structure World.Settled (w : World σ) (id : String) (j : Job) : Prop where
  found : w.store.get id = .ok j
  outcome : (j.status = .completed ∧ j.error = none) ∨
    (j.status = .failed ∧ (∃ e, j.error = some e ∧ e ≠ "") ∧ j.findings = [])
  first : (w.history id).head? = some .pending
  ascending : (w.history id).Pairwise fun a b => a.place < b.place
  last : ∃ earlier, w.history id = earlier ++ [j.status] ∧ ∀ a ∈ earlier, a.isTerminal = false

theorem World.Stands.settled {w : World σ} {id : String} {a : JobStatus} (h : w.Stands id a)
    (ha : a.isTerminal = true) : ∃ j, w.Settled id j := by
  obtain ⟨r, hr, rfl, hfits⟩ := h.record
  obtain ⟨earlier, hhistory⟩ := List.getLast?_eq_some_iff.mp h.last
  have hlast := JobStatus.not_isTerminal_of_isChain (hhistory ▸ h.chain)
  refine ⟨w.store.toJob r, by rw [Store.get, hr], ?_, h.first,
    JobStatus.pairwise_place_of_isChain h.chain, earlier, hhistory, hlast⟩
  cases hstatus : r.status with
  | completed => exact .inl ⟨hstatus, hfits.1 (by simp [hstatus])⟩
  | failed =>
    refine .inr ⟨hstatus, hfits.2 hstatus, ?_⟩
    have hrows := h.rows (by simp [hstatus])
    rw [← Store.id_of_record? hr] at hrows
    exact Store.findingsOf_eq_nil hrows
  | _ => simp [hstatus, JobStatus.isTerminal] at ha

/-- What is left of a job at the end of its run: it has ended, a directory that its repository was
fetched to was removed once and after all work in it, and its signal is gone. -/
structure Config.Ended (id : String) (c : Config σ) : Prop where
  settled : ∃ j, c.world.Settled id j
  cleared : ∀ path, path ≠ "" → .fetched (.ok path) ∈ c.log →
    ∃ uses, c.log = .fetched (.ok path) :: uses ++ [.cleaned path] ∧ ∀ u ∈ uses, u.WorksIn path
  unlisted : ¬ c.world.Listed id

/-- What every move preserves. -/
structure Config.Sound (id : String) (c : Config σ) : Prop where
  follows : c.world.Follows id c.pipeline
  tidy : c.Tidy
  unlisted : c.Unlisted id

theorem Config.Sound.run {s : Stages σ} {id : String} {c c' : Config σ} (h : c.Sound id)
    (hrun : ReflTransGen (Config.FaultyMove s id) c c') : c'.Sound id := by
  induction hrun with
  | refl => exact h
  | tail _ hmove ih =>
    exact ⟨hmove.follows ih.follows, hmove.tidy ih.tidy, hmove.unlisted ih.unlisted⟩

theorem Service.sound_started {s s₁ : Service σ} {now : Moment} {address : String} {job : Job}
    (hs : s.Reachable) (hstart : s.start now address = (.ok job, s₁)) :
    (s₁.config job.id).Sound job.id := by
  obtain ⟨hpipeline, hstands, -⟩ := Service.started hs hstart
  rw [Service.config, hpipeline]
  refine ⟨⟨rfl, .pending, rfl, hstands⟩, ⟨rfl, rfl⟩, fun p hp => ?_,
    fun hnone => absurd hnone (by simp)⟩
  cases hp
  exact ⟨rfl, fun hleave => absurd hleave (by simp [Pipeline.initial])⟩

/-- **Every scan ends properly.** A job is started in a reachable service. From then on its pipeline
and everything around it may move in any order: stages answer what they like, the signal fires at any
time, and a completion may be rolled back. When the pipeline has come to its end, nothing is left
half done. -/
theorem Service.scan_ends {s s₁ : Service σ} {now : Moment} {address : String} {job : Job}
    (hs : s.Reachable) (hstart : s.start now address = (.ok job, s₁)) {c : Config σ}
    (hrun : ReflTransGen (Config.FaultyMove s₁.stages job.id) (s₁.config job.id) c)
    (hend : c.pipeline = none) : c.Ended job.id := by
  have hsound := (Service.sound_started hs hstart).run hrun
  obtain ⟨a, ha, hstands⟩ : ∃ a, a.isTerminal = true ∧ c.world.Stands job.id a := by
    have hfollows := hsound.follows
    rw [hend] at hfollows
    exact hfollows
  have hcleared : Cleared c.log := by
    have htidy := hsound.tidy
    rw [Config.Tidy, hend] at htidy
    exact htidy
  exact ⟨hstands.settled ha, hcleared, hsound.unlisted.2 hend⟩

/-- Stages of which each succeeds at once: the repository is fetched to a directory, and the tools
report what they are told to. -/
def Stages.prompt (path : String) (results : List ToolResult) : Stages Unit where
  fetch _ st := (.ok path, st)
  detect _ st := (.ok [], st)
  scan _ _ st := (results, st)
  review := none
  cleanUp _ outside := outside

/-- A new service with such stages. -/
def Service.prompt (path : String) (results : List ToolResult) : Service Unit where
  stages := .prompt path results
  world := { outside := () }

theorem Service.prompt_reachable (path : String) (results : List ToolResult) :
    (Service.prompt path results).Reachable :=
  .fresh ⟨fun _ hx => absurd hx List.not_mem_nil, rfl, rfl, rfl⟩

/-- The moment and the address of a request. -/
def requestMoment : Moment := ⟨738000, 0, none⟩

def requestAddress : String := "https://github.com/octo/repo"

theorem Service.start_prompt (path : String) (results : List ToolResult) :
    ∃ job s₁, (Service.prompt path results).start requestMoment requestAddress = (.ok job, s₁) := by
  have hgranted : ((Service.prompt path results).start requestMoment requestAddress).1.toBool =
      true := by rfl
  cases hstart : (Service.prompt path results).start requestMoment requestAddress with
  | mk answer s₁ =>
    rw [hstart] at hgranted
    cases answer with
    | error e => cases hgranted
    | ok job => exact ⟨job, s₁, rfl⟩

/-- The signal of the job fires while the tools work, and the pipeline goes on to its end. -/
def Service.stopped (s : Service σ) (id : String) : Config σ :=
  let working := (s.config id).after s.stages requestMoment 9
  Config.after s.stages requestMoment 9 { working with world := working.world.fire id }

theorem Service.run_stopped (s : Service σ) (id : String) :
    ReflTransGen (Config.FaultyMove s.stages id) (s.config id) (s.stopped id) := by
  have hworking := Config.run_after s.stages id requestMoment 9 (s.config id)
  refine (hworking.tail ?_).trans (Config.run_after s.stages id requestMoment 9 _)
  exact .meanwhile _ _ (World.meanwhile_fire _ id id)

/-- A job whose signal fires while the tools work: its directory is removed all the same. -/
theorem Service.scan_ends_fired :
    ∃ job s₁ c, (Service.prompt "checkout" []).Reachable ∧
      (Service.prompt "checkout" []).start requestMoment requestAddress = (.ok job, s₁) ∧
      ReflTransGen (Config.FaultyMove s₁.stages job.id) (s₁.config job.id) c ∧
      c.pipeline = none ∧
      c.log = [.fetched (.ok "checkout"), .detected "checkout" (.ok []),
        .scanned "checkout" [] [], .cleaned "checkout"] ∧
      c.Ended job.id := by
  have hreachable := Service.prompt_reachable "checkout" []
  obtain ⟨job, s₁, hstart⟩ := Service.start_prompt "checkout" []
  have hid : job.id = (Service.prompt "checkout" []).nextId := by
    have hanswer : ((Service.prompt "checkout" []).start requestMoment requestAddress).1.map Job.id =
        .ok (Service.prompt "checkout" []).nextId := by rfl
    rw [hstart] at hanswer
    exact Except.ok.inj hanswer
  have hlater : s₁ = ((Service.prompt "checkout" []).start requestMoment requestAddress).2 := by
    rw [hstart]
  have hend : (s₁.stopped job.id).pipeline = none := by
    rw [hid, hlater]
    rfl
  refine ⟨job, s₁, s₁.stopped job.id, hreachable, hstart, s₁.run_stopped job.id, hend, ?_,
    Service.scan_ends hreachable hstart (s₁.run_stopped job.id) hend⟩
  rw [hid, hlater]
  rfl

end RepoAudit
