import RepoAudit.Proofs.Service.Requests

/-!
# Cancelled jobs

A request to cancel a job is answered by the table of signals: yes, if the signal of the job is in
it. What becomes of the job is decided by its pipeline, which looks at the signal between its stages,
for the last time before it writes its findings.

* `Config.Manned` — what a service knows of a stored job: its pipeline follows the store, and a
  listed job without a pipeline is a stranded one; `Service.Reachable.manned` — it is always so;
* `Point.Stops` — the job of a pipeline at a point is on its way to fail;
* `Service.Stopping.run` — **a job that is on its way to fail stays on it**;
* `Service.EndsFailed` — the job has failed when it has been waited for, now or at any later time;
* `Service.Stoppable` — the job has a pipeline, and its findings are neither written nor about to be
  taken by the store;
* `Service.cancelled_fails_iff` — **a job whose cancellation is answered with yes ends failed exactly
  when it could still be stopped**;
* `Service.cancelled_completes` — three cancellations that come too late.
-/

namespace RepoAudit

open Relation

variable {σ : Type}

namespace World

variable {w w' : World σ} {id : String} {a : JobStatus} {findings : List Finding}
  {stats : Option ReviewStats}

/-- A job is stored with this status. -/
def HasStatus (w : World σ) (id : String) (a : JobStatus) : Prop :=
  ∃ r, w.store.record? id = some r ∧ r.status = a

/-- The store does not take these findings, at whatever time. -/
def Refuses (w : World σ) (id : String) (findings : List Finding) (stats : Option ReviewStats) :
    Prop :=
  ∀ now store, w.store.complete now id findings stats ≠ .ok store

theorem Stands.hasStatus (h : w.Stands id a) : w.HasStatus id a := by
  obtain ⟨r, hr, hstatus, -⟩ := h.record
  exact ⟨r, hr, hstatus⟩

theorem HasStatus.eq {b : JobStatus} (h : w.HasStatus id a) (h' : w.HasStatus id b) : a = b := by
  obtain ⟨r, hr, rfl⟩ := h
  obtain ⟨r', hr', rfl⟩ := h'
  rw [hr, Option.some.injEq] at hr'
  rw [hr']

theorem HasStatus.get (h : w.HasStatus id a) : ∃ j, w.store.get id = .ok j ∧ j.status = a := by
  obtain ⟨r, hr, rfl⟩ := h
  exact ⟨w.store.toJob r, by rw [Store.get, hr], rfl⟩

theorem HasStatus.of_get {j : Job} (h : w.store.get id = .ok j) : w.HasStatus id j.status := by
  rw [Store.get] at h
  split at h
  · cases h
  · next r hr =>
    cases h
    exact ⟨r, hr, rfl⟩

/-- The store goes on refusing as long as no rows are taken out of it. -/
theorem Refuses.meanwhile (h : w.Refuses id findings stats) (hm : w.Meanwhile id w')
    (hrows : ∀ x ∈ w.store.rows, x ∈ w'.store.rows) : w'.Refuses id findings stats := by
  intro now store hok
  obtain ⟨r, hr, hmove, hlines, ⟨hnodup, hfree⟩, -⟩ := Store.complete_eq_ok_iff.mp hok
  refine h now _ (Store.complete_eq_ok_iff.mpr ⟨r, hm.record ▸ hr, hmove, hlines, ⟨hnodup, ?_⟩, rfl⟩)
  exact fun x hx y hy => hfree x hx y (hrows y hy)

/-- A signal in the table fires when it is asked to. -/
theorem signal_fire (h : w.Listed id) : (w.fire id).signal id = .fired := by
  rw [signal_eq_fired_iff, lookup_fire]
  cases hlookup : w.signals.lookup id with
  | none =>
    obtain ⟨e, he, rfl⟩ := List.mem_map.mp h
    have hnone := List.lookup_eq_none_iff.mp hlookup e he
    simp at hnone
  | some x => simp

end World

/-! ### What a service knows of its jobs -/

/-- A review is only marked or done where there is somebody to review. -/
def Point.Reviewable (s : Stages σ) : Point → Prop
  | .markReviewing _ | .review _ => s.review.isSome = true
  | _ => True

/-- What a service knows of a stored job: its pipeline stands where the store says, and has no signal
any more when it leaves; without a pipeline the job has no signal either, or nobody has ever worked on
it. -/
structure Config.Manned (s : Stages σ) (id : String) (c : Config σ) : Prop where
  follows : ∀ p, c.pipeline = some p → c.world.Follows id (some p)
  leaving : ∀ p, c.pipeline = some p → p.point = .leave → ¬ c.world.Listed id
  reviewable : ∀ p, c.pipeline = some p → p.point.Reviewable s
  unmanned : c.pipeline = none → c.world.Listed id → c.world.Stands id .pending

namespace Pipeline

variable {s : Stages σ} {w w' : World σ} {p p' : Pipeline} {now : Moment}

theorem reviewable_afterScan (s : Stages σ) (findings : List Finding) :
    (afterScan s findings).Reviewable s := by
  rw [afterScan]
  split
  · trivial
  · next h =>
    rw [Bool.or_eq_true, not_or] at h
    simpa [Point.Reviewable, Option.isSome_iff_ne_none] using h.2

theorem reviewable_unlessFired {next : Point} (h : next.Reviewable s) :
    (unlessFired w p next).point.Reviewable s := by
  rw [unlessFired]
  split
  · trivial
  · exact h

theorem reviewable_unlessRefused {r : Except JobError Unit} {next : Point} (h : next.Reviewable s) :
    (p.unlessRefused r next).point.Reviewable s := by
  cases r with
  | ok _ => exact h
  | error e => trivial

theorem step_reviewable (h : p.point.Reviewable s) (hstep : p.step s now w = (w', some p')) :
    p'.point.Reviewable s := by
  obtain ⟨job, serial, path, point⟩ := p
  cases point with
  | checkScanned results =>
    cases hstep
    exact reviewable_unlessFired (reviewable_afterScan s _)
  | markReviewing findings =>
    cases hstep
    exact reviewable_unlessRefused h
  | _ =>
    simp only [step, unlessFired, unlessRefused, goTo] at hstep
    (repeat' split at hstep) <;> cases hstep <;> trivial

theorem Advance.reviewable (h : p.point.Reviewable s) (hadvance : p.Advance s w w' (some p')) :
    p'.point.Reviewable s := by
  generalize hq : some p' = q at hadvance
  cases hadvance with
  | step now => exact step_reviewable h (Prod.ext rfl hq.symm)
  | rolledBack e findings stats hpoint =>
    cases hq
    trivial

end Pipeline

/-- A job without a pipeline as it is known. -/
theorem Config.Manned.of_none {s : Stages σ} {w : World σ} {id : String} {log : List Use}
    (h : w.Listed id → w.Stands id .pending) : (⟨w, none, log⟩ : Config σ).Manned s id :=
  ⟨nofun, nofun, nofun, fun _ => h⟩

/-- A job with a new pipeline as it is known. -/
theorem Config.Manned.of_initial {s : Stages σ} {w : World σ} {id : String} {log : List Use}
    (serial : Nat) (h : w.Stands id .pending) :
    (⟨w, some (.initial id serial), log⟩ : Config σ).Manned s id where
  follows := by
    rintro _ ⟨⟩
    exact ⟨rfl, .pending, rfl, h⟩
  leaving := by
    rintro _ ⟨⟩ hpoint
    cases hpoint
  reviewable := by
    rintro _ ⟨⟩
    trivial
  unmanned := nofun

theorem Config.Manned.move {s : Stages σ} {id : String} {c c' : Config σ} (h : c.Manned s id)
    (hmove : Config.FaultyMove s id c c') : c'.Manned s id := by
  cases hmove with
  | @advance w w' p q log log' hadvance =>
    replace hadvance := (Pipeline.advance_recording_iff.mp hadvance).1
    have hfollows := h.follows p rfl
    have hold : Config.Unlisted id (⟨w, some p, log⟩ : Config σ) := by
      refine ⟨fun p' hp' => ?_, fun hnone => absurd hnone (by simp)⟩
      cases hp'
      exact ⟨hfollows.1, h.leaving p rfl⟩
    have hunlisted : Config.Unlisted id (⟨w', q, log'⟩ : Config σ) := hadvance.unlisted hold
    refine ⟨?_, fun p' hp' => (hunlisted.1 p' hp').2, ?_, fun hnone hlisted => ?_⟩
    · rintro p' rfl
      exact hadvance.follows hfollows
    · rintro p' rfl
      exact hadvance.reviewable (h.reviewable p rfl)
    · exact absurd hlisted (hunlisted.2 hnone)
  | meanwhile q log hm =>
    refine ⟨fun p hp => ?_, fun p hp hpoint => mt hm.listed.mp (h.leaving p hp hpoint), h.reviewable,
      fun hnone hlisted => (h.unmanned hnone (hm.listed.mp hlisted)).meanwhile hm⟩
    obtain ⟨hjob, a, hadmits, hstands⟩ := h.follows p hp
    exact ⟨hjob, a, hadmits, hstands.meanwhile hm⟩

namespace Service

variable {s s₁ s₂ : Service σ} {now : Moment} {id : String}

/-- Only a request adds a job to the store. -/
theorem record?_of_step (hs : s.Sound) (hstep : s.Step s₁)
    (hnew : s.world.store.record? id = none) (hstored : (s₁.world.store.record? id).isSome) :
    ∃ now address, s₁ = (s.start now address).2 := by
  cases hstep with
  | start now address => exact ⟨now, address, rfl⟩
  | cancel id' =>
    unfold cancel at hstored
    split at hstored <;> exact absurd hstored (by simp [hnew, World.fire])
  | @advance p w q hp hadvance =>
    have hne : id ≠ p.job := by
      rintro rfl
      have hold := hs.stored p hp
      rw [hnew] at hold
      cases hold
    rw [settle, (hadvance.effect.meanwhile hne).record, hnew] at hstored
    cases hstored
  | close waiting => cases waiting <;> exact absurd hstored (by simp [hnew, World.fireAll])

/-- A job that a request has just stored, as it is known. -/
theorem manned_start (hs : s.Reachable) {address : String}
    (hnew : s.world.store.record? id = none)
    (hstored : ((s.start now address).2.world.store.record? id).isSome) :
    ((s.start now address).2.config id).Manned (s.start now address).2.stages id := by
  by_cases hgrants : ∃ job store, s.Grants now address job store
  · obtain ⟨job, store, hjob⟩ := hgrants
    have hstart := start_granted hjob
    -- no other job is new
    have hid : (store.record? id).isSome → id = job.id := by
      intro hsome
      by_contra hne
      have hans : s.world.store.answer (.create now job) = .ok store := hjob.stored
      rw [(Store.answer_other hans hne).1, hnew] at hsome
      cases hsome
    cases hclosed : s.closed with
    | true =>
      rw [hclosed, if_pos rfl] at hstart
      rw [hstart] at hstored ⊢
      cases hid hstored
      have hstranded := stranded_withJob hs.sound hjob
      rw [config, hstranded.unmanned]
      exact .of_none fun _ => hstranded.stands
    | false =>
      rw [hclosed, if_neg Bool.false_ne_true] at hstart
      obtain ⟨hpipeline, hstands, -⟩ := started hs hstart
      rw [hstart] at hstored ⊢
      cases hid hstored
      rw [config, hpipeline]
      exact .of_initial _ hstands
  · obtain ⟨e, s₁, hstart, hsame⟩ := start_refused (by simpa using hgrants)
    rw [hstart, hsame.store, hnew] at hstored
    cases hstored

/-- **Every stored job of a reachable service is known so.** -/
theorem Reachable.manned (hs : s.Reachable) (hstored : (s.world.store.record? id).isSome) :
    (s.config id).Manned s.stages id := by
  induction hs with
  | @fresh s hfresh =>
    have hnone : s.pipelineOf id = none := by rw [pipelineOf, hfresh.pipelines]; rfl
    have hunlisted : ¬ s.world.Listed id := by simp [World.Listed, hfresh.signals]
    rw [config, hnone]
    exact .of_none fun hlisted => absurd hlisted hunlisted
  | @step s s₁ hs hstep ih =>
    cases hold : s.world.store.record? id with
    | none =>
      obtain ⟨now, address, rfl⟩ := record?_of_step hs.sound hstep hold hstored
      exact manned_start hs hold hstored
    | some r =>
      have hsome : (s.world.store.record? id).isSome := by rw [hold]; rfl
      obtain ⟨log, hmove⟩ := hstep.move hs.sound hsome []
      have hmanned := (ih hsome).move hmove
      rw [(hstep.keeps id).1]
      exact ⟨hmanned.follows, hmanned.leaving, hmanned.reviewable, hmanned.unmanned⟩

end Service

/-! ### On the way to fail -/

/-- The job of a pipeline at a point is on its way to fail: it has failed, or its failure is due, or
the store will refuse its findings, or its signal has fired and will be looked at. -/
def Point.Stops (w : World σ) (id : String) : Point → Prop
  | .cleanUp | .forget | .leave => w.HasStatus id .failed
  | .complete findings stats => w.Refuses id findings stats
  | .report _ | .giveUp _ => True
  | _ => w.signal id = .fired

/-- A job is on its way to fail, or has failed. -/
def Config.Stopping (id : String) (c : Config σ) : Prop :=
  match c.pipeline with
  | none => c.world.HasStatus id .failed
  | some p => p.point.Stops c.world id

theorem World.HasStatus.meanwhile {w w' : World σ} {id : String} {a : JobStatus}
    (h : w.HasStatus id a) (hm : w.Meanwhile id w') : w'.HasStatus id a := by
  obtain ⟨r, hr, hstatus⟩ := h
  exact ⟨r, hm.record.trans hr, hstatus⟩

theorem Point.Stops.meanwhile {w w' : World σ} {id : String} {point : Point}
    (h : point.Stops w id) (hm : w.Meanwhile id w') (hrows : w.store.rows ⊆ w'.store.rows) :
    point.Stops w' id := by
  cases point with
  | cleanUp => exact World.HasStatus.meanwhile h hm
  | forget => exact World.HasStatus.meanwhile h hm
  | leave => exact World.HasStatus.meanwhile h hm
  | complete findings stats => exact World.Refuses.meanwhile h hm fun x hx => hrows hx
  | report message => trivial
  | giveUp message => trivial
  | _ => exact hm.fired h

namespace Pipeline

variable {s : Stages σ} {w w' : World σ} {p : Pipeline} {a : JobStatus}

/-- A pipeline whose signal has fired gives up when it looks at it. -/
theorem stops_unlessFired {next : Point} (h : w.signal p.job = .fired) :
    (unlessFired w p next).point.Stops w p.job := by
  rw [unlessFired, h]
  trivial

theorem stops_unlessRefused {r : Except JobError Unit} {next : Point}
    (h : next.Stops w p.job) : (p.unlessRefused r next).point.Stops w p.job := by
  cases r with
  | ok _ => exact h
  | error e => trivial

/-- What is asked of the store leaves the signals alone. -/
theorem signal_tell (w : World σ) (id id' : String) (status : JobStatus)
    (reply : Except JobError Store) : (w.tell id status reply).2.signal id' = w.signal id' := by
  cases reply <;> rfl

/-- A failure that is reported is written. -/
theorem hasStatus_fail {message : String} (hw : w.Stands p.job a) (ha : a.isTerminal = false)
    (hmessage : message ≠ "") (now : Moment) :
    (w.tell p.job .failed (w.store.fail now p.job message)).1 = .ok () ∧
      (w.tell p.job .failed (w.store.fail now p.job message)).2.HasStatus p.job .failed := by
  obtain ⟨store, hgranted, hstands⟩ := hw.fail ha hmessage now
  rw [hgranted]
  exact ⟨rfl, hstands.hasStatus⟩

theorem step_stops (s : Stages σ) (now : Moment) (hfollows : w.Follows p.job (some p))
    (hreview : p.point.Reviewable s) (h : p.point.Stops w p.job) :
    Config.Stopping p.job (⟨(p.step s now w).1, (p.step s now w).2, []⟩ : Config σ) := by
  obtain ⟨-, a, hadmits, hw⟩ := hfollows
  obtain ⟨job, serial, path, point⟩ := p
  have hworked : ∀ {α : Type} (work : Setting σ → α × Setting σ),
      w.signal job = .fired → (w.during job work).2.signal job = .fired :=
    fun work => (World.meanwhile_during w job job work).fired
  cases point with
  | load =>
    simp only [step]
    split
    · exact h
    · trivial
  | checkLoaded address => exact stops_unlessFired h
  | markCloning address => exact stops_unlessRefused ((signal_tell w job job _ _).trans h)
  | fetch address =>
    simp only [step]
    split
    · exact hworked _ h
    · exact hworked _ h
    · trivial
  | checkUnfetched message => exact stops_unlessFired h
  | checkFetched => exact stops_unlessFired h
  | markScanning => exact stops_unlessRefused ((signal_tell w job job _ _).trans h)
  | detect =>
    simp only [step]
    split
    · exact hworked _ h
    · trivial
    · trivial
  | saveLanguages languages =>
    simp only [step]
    split
    · exact h
    · trivial
  | scan languages => exact hworked _ h
  | checkScanned results => exact stops_unlessFired h
  | markReviewing findings => exact stops_unlessRefused ((signal_tell w job job _ _).trans h)
  | review findings =>
    simp only [step]
    split
    · next hnone =>
      rw [Point.Reviewable, hnone] at hreview
      cases hreview
    · split
      · exact hworked _ h
      · trivial
  | checkReviewed findings stats => exact stops_unlessFired h
  | complete findings stats =>
    simp only [step]
    cases hcomplete : w.store.complete now job findings stats with
    | ok store => exact absurd hcomplete (h now store)
    | error e => trivial
  | report message =>
    obtain ⟨hanswer, hfailed⟩ := hasStatus_fail (p := ⟨job, serial, path, .report message⟩) hw
      hadmits.1 hadmits.2 now
    simp only [step]
    rw [hanswer]
    exact hfailed
  | giveUp message =>
    exact (hasStatus_fail (p := ⟨job, serial, path, .giveUp message⟩) hw hadmits.1 hadmits.2 now).2
  | cleanUp =>
    simp only [step]
    split <;> exact h
  | forget => exact h
  | leave => exact h

theorem Advance.stops {q : Option Pipeline} {log : List Use} (hadvance : p.Advance s w w' q)
    (hfollows : w.Follows p.job (some p)) (hreview : p.point.Reviewable s)
    (h : p.point.Stops w p.job) : Config.Stopping p.job (⟨w', q, log⟩ : Config σ) := by
  cases hadvance with
  | step now => exact step_stops s now hfollows hreview h
  | rolledBack e findings stats hpoint => trivial

end Pipeline

theorem Config.Stopping.move {s : Stages σ} {id : String} {c c' : Config σ} (h : c.Stopping id)
    (hmanned : c.Manned s id) (hmove : Config.FaultyMove s id c c')
    (hrows : c.world.store.rows ⊆ c'.world.store.rows) : c'.Stopping id := by
  cases hmove with
  | @advance w w' p q log log' hadvance =>
    replace hadvance := (Pipeline.advance_recording_iff.mp hadvance).1
    have hfollows := hmanned.follows p rfl
    have hjob := hfollows.1
    subst hjob
    exact hadvance.stops hfollows (hmanned.reviewable p rfl) h
  | @meanwhile w w' q log hm =>
    cases q with
    | none => exact World.HasStatus.meanwhile h hm
    | some p => exact Point.Stops.meanwhile h hm hrows

namespace Service

variable {s s₁ s₂ : Service σ} {now : Moment} {id : String}

/-- No step of a service takes rows out of the store. -/
theorem Step.rows_subset (h : s.Step s₁) : s.world.store.rows ⊆ s₁.world.store.rows := by
  cases h with
  | start now address => rw [rows_start]; exact List.Subset.refl _
  | cancel id' =>
    unfold Service.cancel
    split <;> exact List.Subset.refl _
  | advance hp hadvance => exact hadvance.effect.rows_subset
  | close waiting => cases waiting <;> exact List.Subset.refl _

/-- A stored job is on its way to fail. -/
structure Stopping (s : Service σ) (id : String) : Prop where
  stored : (s.world.store.record? id).isSome
  stopping : (s.config id).Stopping id

theorem Stopping.step (hs : s.Reachable) (h : s.Stopping id) (hstep : s.Step s₁) :
    s₁.Stopping id := by
  obtain ⟨log, hmove⟩ := hstep.move hs.sound h.stored []
  have hstopping := h.stopping.move (hs.manned h.stored) hmove hstep.rows_subset
  exact ⟨(hstep.keeps id).2 h.stored, hstopping⟩

/-- **A job that is on its way to fail stays on it**, whatever happens to the service. -/
theorem Stopping.run (hs : s.Reachable) (h : s.Stopping id) (hrun : ReflTransGen Step s s₁) :
    s₁.Stopping id := by
  induction hrun with
  | refl => exact h
  | tail hrun hstep ih => exact ih.step (hs.run hrun) hstep

/-- Now and at any later time, whatever happens in between, waiting for the job ends and shows that it
has failed. -/
def EndsFailed (s : Service σ) (id : String) : Prop :=
  ∀ s₁, ReflTransGen Step s s₁ → ∀ now, ∃ j, (s₁.wait now id).1 = .ok j ∧ j.status = .failed

theorem Stopping.endsFailed (hs : s.Reachable) (h : s.Stopping id) : s.EndsFailed id := by
  intro s₁ hrun now
  have hfinish := run_finish (hs.run hrun).sound now id
  have hend := (h.run hs (hrun.trans hfinish)).stopping
  rw [Config.Stopping, config, pipelineOf_finish] at hend
  exact World.HasStatus.get hend

/-- A job that ends failed is not found with another status when it has been waited for. -/
theorem EndsFailed.eq_failed {a : JobStatus} (h : s.EndsFailed id) (hrun : ReflTransGen Step s s₁)
    (hwait : (s₁.wait now id).1 = s₁.world.store.get id) (hstatus : s₁.world.HasStatus id a) :
    a = .failed := by
  obtain ⟨j, hj, hfailed⟩ := h s₁ hrun now
  rw [hwait] at hj
  rw [hstatus.eq (World.HasStatus.of_get hj), hfailed]

/-! ### Cancellations -/

/-- A cancellation is answered with yes when the signal of the job is in the table, and fires it. -/
theorem cancel_eq_true_iff :
    s.cancel id = (.ok true, s₁) ↔ s.world.Listed id ∧ s₁ = { s with world := s.world.fire id } := by
  rw [cancel]
  split
  · next h =>
    have hlisted : s.world.Listed id := by simpa [World.Listed] using h
    simp [hlisted, eq_comm]
  · next h =>
    have hunlisted : ¬ s.world.Listed id := by simpa [World.Listed] using h
    refine iff_of_false ?_ fun hyes => hunlisted hyes.1
    cases s.get id <;> simp [Except.map]

/-- A job can still be kept from completing: it has a pipeline, is not completed, and is not about to write
findings that the store takes. -/
def Stoppable (s : Service σ) (id : String) : Prop :=
  ∃ p, s.pipelineOf id = some p ∧ ¬ s.world.HasStatus id .completed ∧
    ∀ findings stats, p.point = .complete findings stats → s.world.Refuses id findings stats

/-- A completed job has nothing left to do but to clean up. -/
theorem closing_of_completed {p : Pipeline} (hfollows : s.world.Follows id (some p))
    (h : s.world.HasStatus id .completed) : p.Closing := by
  obtain ⟨-, a, hadmits, hstands⟩ := hfollows
  cases hstands.hasStatus.eq h
  obtain ⟨job, serial, path, point⟩ := p
  cases point with
  | cleanUp => exact .inl rfl
  | forget => exact .inr (.inl rfl)
  | leave => exact .inr (.inr rfl)
  | _ => simp [Point.Admits, JobStatus.isTerminal] at hadmits

/-- Findings that the store takes complete the job. -/
theorem completes_of_granted {p : Pipeline} {findings : List Finding} {stats : Option ReviewStats}
    {store : Store} (hs : s.Sound) (hp : s.pipelineOf id = some p)
    (hpoint : p.point = .complete findings stats) (hmanned : (s.config id).Manned s.stages id)
    (hok : s.world.store.complete now id findings stats = .ok store) :
    ∃ q, (work now id s).pipelineOf id = some q ∧ q.Closing ∧
      (work now id s).world.HasStatus id .completed := by
  obtain ⟨hjob, a, -, hstands⟩ := hmanned.follows p (by rw [config, hp])
  obtain ⟨job, serial, path, point⟩ := p
  cases hpoint
  cases hjob
  refine ⟨⟨job, serial, path, .cleanUp⟩, ?_, .inl rfl, ?_⟩
  · rw [pipelineOf_work hs hp]
    simp only [Pipeline.step, hok]
    rfl
  · have hcompleted := (hstands.complete hok).hasStatus
    simp only [work, hp, settle, Pipeline.step, hok]
    exact hcompleted

/-- Once its signal has fired, a job that can still be stopped is on its way to fail. -/
theorem Stoppable.stopping (hs : s.Reachable) (hstored : (s.world.store.record? id).isSome)
    (hfired : s.world.signal id = .fired) (h : s.Stoppable id) : s.Stopping id := by
  obtain ⟨p, hp, hopen, hrefuses⟩ := h
  obtain ⟨-, a, hadmits, hstands⟩ := (hs.manned hstored).follows p hp
  have hfailed : a.isTerminal = true → s.world.HasStatus id .failed := by
    intro ha
    cases a with
    | failed => exact hstands.hasStatus
    | completed => exact absurd hstands.hasStatus hopen
    | _ => cases ha
  refine ⟨hstored, ?_⟩
  rw [Config.Stopping, config, hp]
  show p.point.Stops s.world id
  cases hpoint : p.point with
  | cleanUp => exact hfailed (by rwa [hpoint] at hadmits)
  | forget => exact hfailed (by rwa [hpoint] at hadmits)
  | leave => exact hfailed (by rwa [hpoint] at hadmits)
  | complete findings stats => exact hrefuses findings stats hpoint
  | report message => trivial
  | giveUp message => trivial
  | _ => exact hfired

/-- A job with a signal that ends failed can be kept from completing. -/
theorem EndsFailed.stoppable (hs : s.Reachable) (hlisted : s.world.Listed id)
    (h : s.EndsFailed id) : s.Stoppable id := by
  have hmanned := hs.manned (hs.sound.owned.signals id hlisted)
  cases hp : s.pipelineOf id with
  | none =>
    -- nobody works on the job, so it stays where it is
    have hpending := (hmanned.unmanned hp hlisted).hasStatus
    cases h.eq_failed .refl (wait_of_none hp requestMoment) hpending
  | some p =>
    refine ⟨p, hp, fun hcompleted => ?_, fun findings stats hpoint now store hok => ?_⟩
    · -- the findings are written, and only the cleaning up is left
      have hclosing := closing_of_completed (hmanned.follows p hp) hcompleted
      cases h.eq_failed .refl (wait_of_closing hp hclosing requestMoment) hcompleted
    · -- the next step writes the findings
      obtain ⟨q, hq, hclosing, hcompleted⟩ := completes_of_granted hs.sound hp hpoint hmanned hok
      cases h.eq_failed (run_work s now id) (wait_of_closing hq hclosing requestMoment) hcompleted

/-- **Which cancelled jobs fail.** A job is asked to be cancelled in a state that the service can
reach, and the answer is yes. Whatever happens afterwards, the job ends failed — if and only if it
could still be stopped when it was asked. -/
theorem cancelled_fails_iff (hs : s.Reachable) (hcancel : s.cancel id = (.ok true, s₁)) :
    s₁.EndsFailed id ↔ s.Stoppable id := by
  obtain ⟨hlisted, rfl⟩ := cancel_eq_true_iff.mp hcancel
  have hstored := hs.sound.owned.signals id hlisted
  have hreachable : Reachable { s with world := s.world.fire id } := by
    have hstep := hs.step (Step.cancel id)
    rwa [hcancel] at hstep
  have hstill := (World.meanwhile_fire s.world id id).listed.mpr hlisted
  constructor
  · intro hends
    have hstoppable : Stoppable { s with world := s.world.fire id } id :=
      hends.stoppable hreachable hstill
    exact hstoppable
  · intro hstoppable
    have hstopping : Stopping { s with world := s.world.fire id } id :=
      Stoppable.stopping hreachable hstored (World.signal_fire hlisted) hstoppable
    exact hstopping.endsFailed hreachable

/-- The job of the first request to a new service. -/
def promptJob : String := (Service.prompt "checkout" []).nextId

/-- A new service that has been asked for a job, after so many steps of the job. What comes next is the
scan after 8 steps, the writing of the findings after 10, the cleaning up after 11, and the removal of
the signal after 12. -/
def promptAfter (n : Nat) : Service Unit :=
  (work requestMoment promptJob)^[n]
    ((Service.prompt "checkout" []).start requestMoment requestAddress).2

theorem promptAfter_reachable (n : Nat) : (promptAfter n).Reachable :=
  ((prompt_reachable "checkout" []).step (.start _ _)).run (run_iterate_work _ _ _ n)

theorem cancel_eq_of_toOption (h : (s.cancel id).1.toOption = some true) :
    s.cancel id = (.ok true, (s.cancel id).2) := by
  refine Prod.ext ?_ rfl
  cases hanswer : (s.cancel id).1 with
  | error e =>
    rw [hanswer] at h
    cases h
  | ok answer =>
    rw [hanswer] at h
    cases h
    rfl

/-- A job that is cancelled while its tools run fails. -/
theorem cancelled_fails_iff_scanning :
    (promptAfter 8).Reachable ∧
      (promptAfter 8).cancel promptJob = (.ok true, ((promptAfter 8).cancel promptJob).2) ∧
      ((promptAfter 8).cancel promptJob).2.EndsFailed promptJob := by
  have hcancel : (promptAfter 8).cancel promptJob =
      (.ok true, ((promptAfter 8).cancel promptJob).2) := cancel_eq_of_toOption (by rfl)
  obtain ⟨p, hp, hpoint⟩ : ∃ p, (promptAfter 8).pipelineOf promptJob = some p ∧ p.point = .scan [] :=
    Option.map_eq_some_iff.mp (by rfl)
  obtain ⟨r, hr, hscanning⟩ : ∃ r, (promptAfter 8).world.store.record? promptJob = some r ∧
      r.status = .scanning := Option.map_eq_some_iff.mp (by rfl)
  refine ⟨promptAfter_reachable 8, hcancel,
    (cancelled_fails_iff (promptAfter_reachable 8) hcancel).mpr ⟨p, hp, fun h => ?_, ?_⟩⟩
  · cases h.eq ⟨r, hr, hscanning⟩
  · intro findings stats hcomplete
    rw [hpoint] at hcomplete
    cases hcomplete

/-- The cancellation is answered with yes, and the job completes. -/
def TooLate (s : Service σ) (id : String) : Prop :=
  (s.cancel id).1.toOption = some true ∧
    ((s.cancel id).2.wait requestMoment id).1.toOption.map Job.status = some .completed

instance (s : Service σ) (id : String) : Decidable (s.TooLate id) :=
  inferInstanceAs (Decidable (_ ∧ _))

theorem TooLate.not_endsFailed (h : s.TooLate id) : ¬ (s.cancel id).2.EndsFailed id := by
  intro hends
  obtain ⟨j, hj, hfailed⟩ := hends _ .refl requestMoment
  have hcompleted := h.2
  rw [hj] at hcompleted
  cases hfailed.symm.trans (Option.some.inj hcompleted)

/-- A job completes although its cancellation is answered with yes: after the last look at the signal
while the findings are not yet written, during the cleaning up, and before the signal is removed. -/
theorem cancelled_completes :
    ((promptAfter 10).Reachable ∧ (promptAfter 10).TooLate promptJob ∧
        ¬ ((promptAfter 10).cancel promptJob).2.EndsFailed promptJob) ∧
      ((promptAfter 11).Reachable ∧ (promptAfter 11).TooLate promptJob ∧
        ¬ ((promptAfter 11).cancel promptJob).2.EndsFailed promptJob) ∧
      ((promptAfter 12).Reachable ∧ (promptAfter 12).TooLate promptJob ∧
        ¬ ((promptAfter 12).cancel promptJob).2.EndsFailed promptJob) := by
  have hwriting : (promptAfter 10).TooLate promptJob := by decide +kernel
  have hcleaning : (promptAfter 11).TooLate promptJob := by decide +kernel
  have hremoving : (promptAfter 12).TooLate promptJob := by decide +kernel
  exact ⟨⟨promptAfter_reachable 10, hwriting, hwriting.not_endsFailed⟩,
    ⟨promptAfter_reachable 11, hcleaning, hcleaning.not_endsFailed⟩,
    promptAfter_reachable 12, hremoving, hremoving.not_endsFailed⟩

end Service

end RepoAudit
