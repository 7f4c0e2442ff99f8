import RepoAudit.Proofs.Service.Waiting

/-!
# Requests for scans

A request is meant to be all or nothing: either it is refused and the service is as before, or the
job is stored and its pipeline handed to the pool. A pool that has been closed is asked last, when
the job is stored and its signal is in the table.

* `Service.Grants` — the address is accepted, the job can be made and the store takes it;
* `Service.start_refused`, `Service.start_granted` — the two courses of a request;
* `Service.Stranded` — a job that is stored and listed but that nobody works on;
  `Service.Stranded.run` — it stays so for ever;
* `Service.Whole` — a request is all or nothing, and its job is over when it has been waited for;
* `Service.start_whole_iff` — **a request is all or nothing unless the pool is closed and everything
  else grants it**;
* `Service.start_strands` — a request to a closed pool that leaves a job behind.
-/

namespace RepoAudit

open Relation

variable {σ : Type}

theorem World.Settled.isTerminal {w : World σ} {id : String} {j : Job} (h : w.Settled id j) :
    j.status.isTerminal = true := by
  rcases h.outcome with ⟨hstatus, -⟩ | ⟨hstatus, -, -⟩ <;> rw [hstatus] <;> rfl

namespace Service

variable {s s₁ s₂ : Service σ} {now : Moment} {address id : String} {job : Job} {store : Store}

/-! ### The course of a request -/

/-- Nothing but the pool can stand in the way of a request: its address is accepted, and the job that
is made for it is stored. -/
structure Grants (s : Service σ) (now : Moment) (address : String) (job : Job) (store : Store) :
    Prop where
  accepted : ∃ segments, Address.check address = .ok segments
  made : Job.create? s.nextId (Address.canonical address) s.retentionDays now = some job
  stored : s.world.store.create now job = .ok store

/-- Jobs, signals and pipelines are the same. -/
structure SameTables (s s₁ : Service σ) : Prop where
  store : s₁.world.store = s.world.store
  signals : s₁.world.signals = s.world.signals
  pipelines : s₁.pipelines = s.pipelines

/-- A request that is granted leads to a stored job, whatever the pool says to it. -/
theorem start_granted (h : s.Grants now address job store) :
    s.start now address =
      if s.closed then (.error .closed, s.withJob job store)
      else (.ok job, { s.withJob job store with
        pipelines := s.pipelines ++ [.initial job.id (s.issued + 1)] }) := by
  obtain ⟨segments, hsegments⟩ := h.accepted
  simp only [start, hsegments, h.made, h.stored, World.tell]
  rfl

/-- A request that is not granted leaves all tables alone. -/
theorem start_refused (h : ∀ job store, ¬ s.Grants now address job store) :
    ∃ e s₁, s.start now address = (.error e, s₁) ∧ s.SameTables s₁ := by
  unfold start
  split
  · exact ⟨_, _, rfl, rfl, rfl, rfl⟩
  · next segments hcheck =>
    split
    · exact ⟨_, _, rfl, rfl, rfl, rfl⟩
    · next job hmade =>
      cases hstored : s.world.store.create now job with
      | error e => exact ⟨_, _, rfl, rfl, rfl, rfl⟩
      | ok store => exact absurd ⟨⟨segments, hcheck⟩, hmade, hstored⟩ (h job store)

/-- The job of a granted request stands at the first stage. -/
theorem Grants.stands (hs : s.Sound) (h : s.Grants now address job store) :
    (s.withJob job store).world.Stands job.id .pending := by
  obtain ⟨-, hstatus, herror⟩ := create?_fresh h.made
  exact (stands_withJob hs hstatus herror h.stored).1

/-! ### Jobs that nobody works on -/

/-- A job that is stored and whose signal is in the table, but that has no pipeline. -/
structure Stranded (s : Service σ) (id : String) : Prop where
  unmanned : s.pipelineOf id = none
  listed : s.world.Listed id
  stands : s.world.Stands id .pending

/-- A granted request to a closed pool strands its job. -/
theorem stranded_withJob (hs : s.Sound) (h : s.Grants now address job store) :
    (s.withJob job store).Stranded job.id := by
  refine ⟨List.find?_eq_none.mpr fun p hp hjob => ?_, ?_, h.stands hs⟩
  · have hold := hs.stored p hp
    rw [of_decide_eq_true hjob, record?_of_create h.stored] at hold
    cases hold
  · simp [withJob, World.Listed]

theorem Stranded.step (hs : s.Sound) (h : s.Stranded id) (hstep : s.Step s₁) : s₁.Stranded id := by
  obtain ⟨r, hr, -⟩ := h.stands.record
  have hstored : (s.world.store.record? id).isSome := by rw [hr]; rfl
  obtain ⟨log, hmove⟩ := hstep.move hs hstored []
  generalize hc : s.config id [] = c at hmove
  generalize hc₁ : s₁.config id log = c₁ at hmove
  cases hmove with
  | advance hadvance =>
    rw [config, h.unmanned] at hc
    cases hc
  | meanwhile q log hm =>
    simp only [config, Config.mk.injEq] at hc hc₁
    obtain ⟨rfl, hq, -⟩ := hc
    obtain ⟨rfl, hq₁, -⟩ := hc₁
    exact ⟨by rw [hq₁, ← hq, h.unmanned], hm.listed.mpr h.listed, h.stands.meanwhile hm⟩

/-- **A stranded job stays stranded**, whatever else happens to the service. -/
theorem Stranded.run (hs : s.Sound) (h : s.Stranded id) (hrun : ReflTransGen Step s s₁) :
    s₁.Stranded id := by
  induction hrun with
  | refl => exact h
  | tail hrun hstep ih => exact ih.step (hs.run hrun) hstep

/-! ### All or nothing -/

/-- A request is all or nothing: if it is refused, jobs, signals and pipelines are as before; if it is
answered with a job, the pipeline of the job is with the pool, and whatever happens afterwards, the
job has ended when it has been waited for. -/
def Whole (s : Service σ) (now : Moment) (address : String) : Prop :=
  match s.start now address with
  | (.error _, s₁) => s.SameTables s₁
  | (.ok job, s₁) =>
    s₁.pipelineOf job.id = some (.initial job.id (s.issued + 1)) ∧
      ∀ s₂, ReflTransGen Step s₁ s₂ → ∀ later, ∃ j, (s₂.wait later job.id).1 = .ok j ∧
        j.status.isTerminal = true

/-- **When a request is all or nothing.** In every state that a service can reach, a request is all or
nothing unless the pool is closed and everything else grants the request. -/
theorem start_whole_iff (hs : s.Reachable) (now : Moment) (address : String) :
    s.Whole now address ↔ ¬ (s.closed = true ∧ ∃ job store, s.Grants now address job store) := by
  by_cases hgrants : ∃ job store, s.Grants now address job store
  · obtain ⟨job, store, hjob⟩ := hgrants
    have hstart := start_granted hjob
    cases hclosed : s.closed with
    | true =>
      -- the job is in the store now and was not there before
      rw [hclosed, if_pos rfl] at hstart
      refine iff_of_false ?_ fun hnot => hnot ⟨rfl, job, store, hjob⟩
      rw [Whole, hstart]
      intro hsame
      obtain ⟨r, hr, -⟩ := (hjob.stands hs.sound).record
      rw [hsame.store, record?_of_create hjob.stored] at hr
      cases hr
    | false =>
      rw [hclosed, if_neg Bool.false_ne_true] at hstart
      refine iff_of_true ?_ fun h => absurd h.1 Bool.false_ne_true
      rw [Whole, hstart]
      refine ⟨(started hs hstart).1, fun s₂ hrun later => ?_⟩
      obtain ⟨j, hwait, hsettled⟩ := settled_wait hs hstart hrun later
      exact ⟨j, hwait, hsettled.isTerminal⟩
  · obtain ⟨e, s₁, hstart, hsame⟩ := start_refused (by simpa using hgrants)
    refine iff_of_true ?_ fun h => hgrants h.2
    rw [Whole, hstart]
    exact hsame

/-- A request to a new service is all or nothing. -/
theorem start_whole_iff_prompt :
    (Service.prompt "checkout" []).Reachable ∧
      (Service.prompt "checkout" []).Whole requestMoment requestAddress :=
  ⟨prompt_reachable "checkout" [],
    (start_whole_iff (prompt_reachable "checkout" []) requestMoment requestAddress).mpr
      fun h => absurd h.1 Bool.false_ne_true⟩

/-- A new service whose pool has been closed. -/
def promptClosed : Service Unit := (Service.prompt "checkout" []).shutDown requestMoment false

/-- A request to a closed pool is refused, but a job is stored and its signal is in the table. -/
theorem start_strands :
    promptClosed.Reachable ∧
      (promptClosed.start requestMoment requestAddress).1 = .error .closed ∧
      promptClosed.world.store = {} ∧ promptClosed.world.signals = [] ∧
      (promptClosed.start requestMoment requestAddress).2.world.store.records.map
        (fun r => (r.address, r.status)) = [(requestAddress, .pending)] ∧
      (promptClosed.start requestMoment requestAddress).2.world.signals.map Prod.snd = [false] ∧
      ¬ promptClosed.Whole requestMoment requestAddress := by
  have hanswer : (promptClosed.start requestMoment requestAddress).1 = .error .closed := by rfl
  have hrecords : (promptClosed.start requestMoment requestAddress).2.world.store.records.map
      (fun r => (r.address, r.status)) = [(requestAddress, .pending)] := by rfl
  refine ⟨.step (prompt_reachable "checkout" []) (.close false), hanswer, rfl, rfl, hrecords, by rfl,
    fun hwhole => ?_⟩
  have hstart : promptClosed.start requestMoment requestAddress =
      (.error .closed, (promptClosed.start requestMoment requestAddress).2) := Prod.ext hanswer rfl
  rw [Whole, hstart] at hwhole
  rw [hwhole.store] at hrecords
  cases hrecords

end Service

end RepoAudit
