import Mathlib.Logic.Function.Iterate
import RepoAudit.Proofs.Service.Ending

/-!
# Waiting for a job

Waiting does everything that is left of a job. That is a run of the service, in which only the
pipeline of the job moves, so whatever holds along every run holds of what waiting shows.

* `Service.work` — the next step of the pipeline of a job, if it has one;
* `Service.finish_eq_iterate` — finishing a job is doing its steps one by one;
* `Service.run_finish`, `Service.pipelineOf_finish` — finishing is a run, after which the job has no
  pipeline;
* `Service.settled_wait` — **a job that has been started is over when it has been waited for**,
  whatever has happened in between;
* `Pipeline.store_finish` — the last steps of a pipeline leave the store alone.
-/

namespace RepoAudit

open Relation

variable {σ : Type}

namespace Pipeline

variable {s : Stages σ} {w : World σ} {p : Pipeline} {now : Moment}

theorem rank_pos (point : Point) : 0 < point.rank := by
  cases point <;> exact Nat.succ_pos _

/-- A pipeline that has only to clean up and to leave. -/
def Closing (p : Pipeline) : Prop := p.point = .cleanUp ∨ p.point = .forget ∨ p.point = .leave

/-- The last steps of a pipeline leave the store alone. -/
theorem store_finish (s : Stages σ) (now : Moment) (w : World σ) (h : p.Closing) :
    (p.finish s now w).store = w.store := by
  obtain ⟨job, serial, path, point⟩ := p
  obtain rfl | rfl | rfl : point = .cleanUp ∨ point = .forget ∨ point = .leave := h
  · by_cases hpath : path = "" <;> simp [finish, steps, step, Point.rank, goTo, World.dropSignal, hpath]
  · rfl
  · rfl

end Pipeline

namespace Service

variable {s s₁ s₂ : Service σ} {now : Moment} {id : String}

/-! ### Steps of one job -/

/-- The service after the next step of a job; without a pipeline of it nothing happens. -/
def work (now : Moment) (id : String) (s : Service σ) : Service σ :=
  match s.pipelineOf id with
  | none => s
  | some p => s.settle p (p.step s.stages now s.world).1 (p.step s.stages now s.world).2

theorem job_of_pipelineOf {p : Pipeline} (h : s.pipelineOf id = some p) : p.job = id := by
  simpa using List.find?_some h

theorem mem_of_pipelineOf {p : Pipeline} (h : s.pipelineOf id = some p) : p ∈ s.pipelines :=
  List.mem_of_find?_eq_some h

theorem run_work (s : Service σ) (now : Moment) (id : String) :
    ReflTransGen Step s (work now id s) := by
  rw [work]
  cases hp : s.pipelineOf id with
  | none => exact .refl
  | some p => exact .single (.advance (mem_of_pipelineOf hp) (.step now))

theorem run_iterate_work (s : Service σ) (now : Moment) (id : String) (n : Nat) :
    ReflTransGen Step s ((work now id)^[n] s) := by
  induction n generalizing s with
  | zero => exact .refl
  | succ n ih => exact (run_work s now id).trans (ih _)

theorem iterate_work_of_none (h : s.pipelineOf id = none) (n : Nat) :
    (work now id)^[n] s = s := by
  have hstill : work now id s = s := by rw [work, h]
  exact Function.iterate_fixed hstill n

/-- A step replaces the pipeline of the job by what the step makes of it. -/
theorem pipelineOf_work {p : Pipeline} (hs : s.Sound) (hp : s.pipelineOf id = some p) :
    (work now id s).pipelineOf id = (p.step s.stages now s.world).2 := by
  have hjob := job_of_pipelineOf hp
  subst hjob
  simp only [work, hp]
  exact pipelineOf_settle hs (mem_of_pipelineOf hp) fun x hx =>
    (Pipeline.step_next (Prod.ext rfl hx)).1

theorem Sound.work (hs : s.Sound) : (work now id s).Sound := by
  rw [Service.work]
  cases hp : s.pipelineOf id with
  | none => exact hs
  | some p => exact hs.advance_sound (.step now)

/-- The pipelines of other jobs stay. -/
theorem filter_settle {p : Pipeline} {w : World σ} {q : Option Pipeline}
    (hq : ∀ x, q = some x → x.job = p.job) :
    (s.settle p w q).pipelines.filter (fun x => x.job ≠ p.job) =
      s.pipelines.filter fun x => x.job ≠ p.job := by
  rw [settle, List.filter_filterMap, ← List.filterMap_eq_filter]
  congr 1
  funext x
  by_cases hx : x.job = p.job
  · cases q with
    | none => simp [hx, Option.guard]
    | some y => simp [hx, hq y rfl, Option.guard]
  · simp [hx, Option.guard]

/-- A pipeline that is at its end goes, and the others stay. -/
theorem settle_none (s : Service σ) (p : Pipeline) (w : World σ) :
    s.settle p w none = { s with
      world := w
      pipelines := s.pipelines.filter fun x => x.job ≠ p.job } := by
  rw [settle, ← List.filterMap_eq_filter]
  congr 2
  funext x
  by_cases hx : x.job = p.job <;> simp [hx, Option.guard]

/-- Steps enough for the pipeline of a job do all that is left of it. -/
theorem iterate_work_eq {n : Nat} {p : Pipeline} (hs : s.Sound) (hp : s.pipelineOf id = some p)
    (hrank : p.point.rank ≤ n) :
    (work now id)^[n] s = { s with
      world := (p.steps s.stages now n s.world).1
      pipelines := s.pipelines.filter fun x => x.job ≠ id } := by
  induction n generalizing s p with
  | zero => exact absurd (Pipeline.rank_pos p.point) (by omega)
  | succ n ih =>
    have hjob := job_of_pipelineOf hp
    have hwork : work now id s =
        s.settle p (p.step s.stages now s.world).1 (p.step s.stages now s.world).2 := by
      rw [work, hp]
    have hnext : (work now id s).pipelineOf id = (p.step s.stages now s.world).2 :=
      pipelineOf_work hs hp
    rw [Function.iterate_succ_apply, Pipeline.steps]
    rcases hstep : p.step s.stages now s.world with ⟨w, q⟩
    rw [hstep] at hwork hnext
    cases q with
    | none =>
      rw [iterate_work_of_none hnext, hwork, settle_none, hjob]
    | some p' =>
      have hrest := filter_settle (s := s) (w := w) (q := some p') fun x hx =>
        (Pipeline.step_next (hx ▸ hstep)).1
      have hlt := Pipeline.rank_step hstep
      rw [ih hs.work hnext (by omega), hwork, ← hjob, hrest]
      rfl

/-- Finishing a job is doing its steps one by one. -/
theorem finish_eq_iterate {p : Pipeline} (hs : s.Sound) (hp : s.pipelineOf id = some p)
    (now : Moment) : s.finish now id = (work now id)^[p.point.rank] s := by
  rw [iterate_work_eq hs hp le_rfl, finish]
  rw [pipelineOf] at hp
  simp only [hp]
  rfl

theorem finish_of_none (h : s.pipelineOf id = none) : s.finish now id = s := by
  rw [pipelineOf] at h
  simp only [finish, h]

/-- **Finishing a job is a run of the service.** -/
theorem run_finish (hs : s.Sound) (now : Moment) (id : String) :
    ReflTransGen Step s (s.finish now id) := by
  cases hp : s.pipelineOf id with
  | none =>
    rw [finish_of_none hp]
  | some p =>
    rw [finish_eq_iterate hs hp]
    exact run_iterate_work s now id _

theorem pipelineOf_finish (s : Service σ) (now : Moment) (id : String) :
    (s.finish now id).pipelineOf id = none := by
  cases hp : s.pipelineOf id with
  | none => rw [finish_of_none hp, hp]
  | some p =>
    rw [pipelineOf] at hp
    simp only [finish, hp, pipelineOf]
    exact List.find?_eq_none.mpr fun x hx => by simpa using (List.mem_filter.mp hx).2

/-! ### What waiting shows -/

theorem Sound.run (hs : s.Sound) (hrun : ReflTransGen Step s s₁) : s₁.Sound := by
  induction hrun with
  | refl => exact hs
  | tail _ hstep ih => exact ih.step hstep

theorem Reachable.run (hs : s.Reachable) (hrun : ReflTransGen Step s s₁) : s₁.Reachable := by
  induction hrun with
  | refl => exact hs
  | tail _ hstep ih => exact ih.step hstep

theorem wait_eq (s : Service σ) (now : Moment) (id : String) :
    (s.wait now id).1 = (s.finish now id).world.store.get id := rfl

/-- Waiting for a job without a pipeline shows the job as it is. -/
theorem wait_of_none (h : s.pipelineOf id = none) (now : Moment) :
    (s.wait now id).1 = s.world.store.get id := by
  rw [wait_eq, finish_of_none h]

/-- Waiting for a job that has only to clean up shows the job as it is. -/
theorem wait_of_closing {p : Pipeline} (hp : s.pipelineOf id = some p) (h : p.Closing)
    (now : Moment) : (s.wait now id).1 = s.world.store.get id := by
  rw [wait_eq, finish]
  rw [pipelineOf] at hp
  simp only [hp, Store.get, Store.toJob, Store.findingsOf, Pipeline.store_finish s.stages now s.world h]

/-- A job that has been started is over in every state in which its pipeline is gone. -/
theorem settled_of_run {address : String} {job : Job} (hs : s.Reachable)
    (hstart : s.start now address = (.ok job, s₁)) (hrun : ReflTransGen Step s₁ s₂)
    (hgone : s₂.pipelineOf job.id = none) : ∃ j, s₂.world.Settled job.id j := by
  have hsound : s₁.Sound := by
    have hstep := hs.sound.start_sound now address
    rwa [hstart] at hstep
  have hstored : (s₁.world.store.record? job.id).isSome := by
    obtain ⟨hpipeline, -, -⟩ := started hs hstart
    exact hsound.stored _ (mem_of_pipelineOf hpipeline)
  obtain ⟨log, hmoves⟩ := run_moves hsound hrun hstored []
  have hfollows := ((sound_started hs hstart).run hmoves).follows
  rw [config, hgone] at hfollows
  obtain ⟨a, ha, hstands⟩ := hfollows
  exact hstands.settled ha

/-- **A job that has been started is over when it has been waited for**, whatever has happened in
between. -/
theorem settled_wait {address : String} {job : Job} (hs : s.Reachable)
    (hstart : s.start now address = (.ok job, s₁)) (hrun : ReflTransGen Step s₁ s₂) (later : Moment) :
    ∃ j, (s₂.wait later job.id).1 = .ok j ∧ (s₂.finish later job.id).world.Settled job.id j := by
  have hsound : s₁.Sound := by
    have hstep := hs.sound.start_sound now address
    rwa [hstart] at hstep
  have hfinish := run_finish (hsound.run hrun) later job.id
  obtain ⟨j, hj⟩ := settled_of_run hs hstart (hrun.trans hfinish) (pipelineOf_finish s₂ later job.id)
  exact ⟨j, hj.found, hj⟩

end Service

end RepoAudit
