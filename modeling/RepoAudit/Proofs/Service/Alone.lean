import RepoAudit.Proofs.Service.Turns

/-!
# Jobs do not disturb each other

Jobs are worked on at the same time, and their pipelines take turns in any order. When it is fixed for
each job what its stages answer and where it is asked to stop, and no two jobs have findings with one
identifier, each job ends as it does when nothing else is there.

* `Fleet`, `Fleet.run` — pipelines over one world, and their turns in the order of a schedule;
* `Fleet.alone` — a job worked on to its end in a world with nothing else in it;
* `Fleet.alone_eq_finish`, `Service.fleet_run` — a job that nobody stops is alone when all that is left
  of it is done in one go, and the pipelines of a service are such a fleet;
* `Fleet.run_standsAlone` — after any turns, each job stands where it stands alone after its own turns;
* `Fleet.ends_as_alone` — **whatever the order of the turns, each job that has had enough of them has
  come to its end, and is then read back as if it had been alone**.
-/

namespace RepoAudit

variable {σ : Type}

/-! ### A job alone -/

/-- The world with nothing but one job in it. -/
def World.only (w : World σ) (id : String) : World σ :=
  { w with
    store := w.store.only id
    signals := w.signals.filter fun e => e.1 = id
    notices := w.notices.filter fun n => n.job = id }

theorem World.mirrors_only (w : World σ) (id : String) : w.Mirrors id (w.only id) where
  store := w.store.mirrors_only id
  signal := by
    have hkey := lookup_filter_key w.signals (fun k => decide (k = id)) id
    rw [only]
    simpa using hkey

/-! ### Jobs that are worked on at the same time -/

/-- A world and the pipelines that are worked on in it, each under its job. -/
@[ext]
structure Fleet (σ : Type) where
  world : World σ
  pipelines : String → Option Pipeline
  own : ∀ id p, pipelines id = some p → p.job = id

namespace Fleet

variable {k : String → Circumstances σ} {f : Fleet σ} {id : String} {now : Moment}

/-- A turn of the pipeline of a job. -/
def turn (k : String → Circumstances σ) (f : Fleet σ) (id : String) (now : Moment) : Fleet σ where
  world := ((k id).turn now (f.world, f.pipelines id)).1
  pipelines := Function.update f.pipelines id ((k id).turn now (f.world, f.pipelines id)).2
  own := by
    intro id' p' hp'
    by_cases hid : id' = id
    · subst hid
      rw [Function.update_self] at hp'
      obtain ⟨p, hp, hjob⟩ := Circumstances.job_of_turn hp'
      rw [hjob, f.own id' p hp]
    · rw [Function.update_of_ne hid] at hp'
      exact f.own id' p' hp'

/-- Turns in the order of a schedule, each at its moment. -/
def run (k : String → Circumstances σ) (f : Fleet σ) (schedule : List (String × Moment)) : Fleet σ :=
  schedule.foldl (fun f next => f.turn k next.1 next.2) f

/-- How many turns a job has in a schedule. -/
def turns (schedule : List (String × Moment)) (id : String) : Nat :=
  (schedule.map Prod.fst).count id

/-- A job in a world with nothing else in it, after some turns. -/
def aloneAfter (k : String → Circumstances σ) (f : Fleet σ) (now : Moment) (id : String) (n : Nat) :
    World σ × Option Pipeline :=
  ((k id).turn now)^[n] (f.world.only id, f.pipelines id)

/-- A job in a world with nothing else in it, after all that is left of it has been done. -/
def alone (k : String → Circumstances σ) (f : Fleet σ) (now : Moment) (id : String) :
    World σ × Option Pipeline :=
  f.aloneAfter k now id (Pipeline.left (f.pipelines id))

theorem alone_of_none (h : f.pipelines id = none) :
    f.alone k now id = (f.world.only id, none) := by
  rw [alone, aloneAfter, h]
  rfl

/-! ### The pipelines of a service -/

/-- A job that is not asked to stop is alone when all that is left of it is done in one go. -/
theorem alone_eq_finish {p : Pipeline} (hp : f.pipelines id = some p)
    (hstopped : ∀ point, (k id).stopped point = false) :
    (f.alone k now id).1 = p.finish (k id).stages now (f.world.only id) := by
  rw [Pipeline.finish, Circumstances.steps_eq_iterate_turn hstopped, alone, aloneAfter, hp]
  rfl

end Fleet

namespace Service

variable {s : Service σ} {now : Moment} {id : String}

/-- The pipelines of a service. -/
def fleet (s : Service σ) : Fleet σ where
  world := s.world
  pipelines := s.pipelineOf
  own _ _ h := job_of_pipelineOf h

/-- A step of a job of a service is a turn in its fleet. -/
theorem fleet_work (hs : s.Sound) {k : String → Circumstances σ} (hstages : (k id).stages = s.stages)
    (hstopped : ∀ point, (k id).stopped point = false) :
    (work now id s).fleet = s.fleet.turn k id now := by
  cases hp : s.pipelineOf id with
  | none =>
    have hturn : (k id).turn now (s.world, s.pipelineOf id) = (s.world, s.pipelineOf id) := by
      rw [hp, Circumstances.turn_none]
    have hstill : work now id s = s := by rw [work, hp]
    rw [hstill]
    refine Fleet.ext ?_ ?_
    · exact congrArg Prod.fst hturn.symm
    · show s.pipelineOf = Function.update s.pipelineOf id ((k id).turn now (s.world, s.pipelineOf id)).2
      rw [hturn, Function.update_eq_self]
  | some p =>
    obtain rfl := job_of_pipelineOf hp
    have hturn : (k p.job).turn now (s.world, s.pipelineOf p.job) = p.step s.stages now s.world := by
      rw [hp, Circumstances.turn_some, Circumstances.before_of_quiet hstopped, hstages]
    refine Fleet.ext ?_ ?_
    · show (work now p.job s).world = ((k p.job).turn now (s.world, s.pipelineOf p.job)).1
      rw [hturn, work, hp]
      rfl
    · show (work now p.job s).pipelineOf =
        Function.update s.pipelineOf p.job ((k p.job).turn now (s.world, s.pipelineOf p.job)).2
      rw [hturn]
      funext id
      by_cases hid : id = p.job
      · rw [hid, Function.update_self, pipelineOf_work hs hp]
      · rw [Function.update_of_ne hid, work, hp]
        exact pipelineOf_settle_other (fun x hx => (Pipeline.step_next (Prod.ext rfl hx)).1) hid

theorem stages_work (s : Service σ) (now : Moment) (id : String) :
    (work now id s).stages = s.stages := by
  rw [work]
  cases s.pipelineOf id <;> rfl

/-- Steps of the jobs of a service in any order are turns in its fleet. -/
theorem fleet_run (hs : s.Sound) {k : String → Circumstances σ}
    (hstages : ∀ id, (k id).stages = s.stages) (hstopped : ∀ id point, (k id).stopped point = false)
    (schedule : List (String × Moment)) :
    (schedule.foldl (fun s next => work next.2 next.1 s) s).fleet = s.fleet.run k schedule := by
  induction schedule generalizing s with
  | nil => rfl
  | cons next rest ih =>
    obtain ⟨id, now⟩ := next
    have hstages' : ∀ id', (k id').stages = (work now id s).stages := by
      intro id'
      rw [stages_work, hstages]
    rw [List.foldl_cons, ih hs.work hstages', fleet_work hs (hstages id) (hstopped id)]
    rfl

end Service

namespace Fleet

variable {k : String → Circumstances σ} {f g : Fleet σ} {id : String} {now : Moment}

/-! ### Jobs with findings of their own -/

/-- No finding that a job has when it ends alone has the identifier of one that another job has. -/
def IdsDistinct (k : String → Circumstances σ) (f : Fleet σ) (now : Moment) : Prop :=
  ∀ id id', id ≠ id' → ∀ x ∈ (f.alone k now id).1.store.rows,
    ∀ y ∈ (f.alone k now id').1.store.rows, x.finding.id ≠ y.finding.id

/-- A job stands in a fleet where it stands alone after some turns. -/
structure StandsAlone (k : String → Circumstances σ) (f : Fleet σ) (now : Moment) (g : Fleet σ)
    (id : String) (n : Nat) : Prop where
  world : g.world.Mirrors id (f.aloneAfter k now id n).1
  pipeline : g.pipelines id = (f.aloneAfter k now id n).2

theorem aloneAfter_succ (k : String → Circumstances σ) (f : Fleet σ) (now : Moment) (id : String)
    (n : Nat) : f.aloneAfter k now id (n + 1) = (k id).turn now (f.aloneAfter k now id n) :=
  Function.iterate_succ_apply' _ n _

/-- The rows of a job after some turns are among those that it has when it ends. -/
theorem rows_aloneAfter_subset (k : String → Circumstances σ) (f : Fleet σ) (now : Moment)
    (id : String) (n : Nat) :
    (f.aloneAfter k now id n).1.store.rows ⊆ (f.alone k now id).1.store.rows :=
  (k id).rows_iterate_turn_subset now n _

/-- A turn of another job. -/
theorem StandsAlone.turn_other {id' : String} {n : Nat} (h : f.StandsAlone k now g id n)
    (hid : id ≠ id') (now' : Moment) : f.StandsAlone k now (g.turn k id' now') id n where
  world := by
    show World.Mirrors id ((k id').turn now' (g.world, g.pipelines id')).1 _
    cases hp : g.pipelines id' with
    | none => exact h.world
    | some p =>
      obtain rfl := g.own id' p hp
      exact Circumstances.mirrors_turn_other h.world hid
  pipeline := by
    show Function.update g.pipelines id' _ id = _
    rw [Function.update_of_ne hid, h.pipeline]

/-- The rows of a completion that is granted alone can be added to the shared store. -/
theorem insertable_of_alone {n : String → Nat} {p : Pipeline} {findings : List Finding}
    {stats : Option ReviewStats} {store : Store} (hids : f.IdsDistinct k now)
    (h : ∀ id, f.StandsAlone k now g id (n id)) (hp : g.pipelines id = some p)
    (hpoint : p.point = .complete findings stats)
    (hgranted : (f.aloneAfter k now id (n id)).1.store.complete now id findings stats = .ok store) :
    g.world.store.Insertable (Store.rowsOf id findings) := by
  obtain ⟨r, -, -, -, ⟨hnodup, hfree⟩, hstore⟩ := Store.complete_eq_ok_iff.mp hgranted
  have hown : Store.rowsOf id findings ⊆ (f.alone k now id).1.store.rows := by
    have hturn : (f.aloneAfter k now id (n id + 1)).1.store = store := by
      rw [aloneAfter_succ, ← Prod.eta (f.aloneAfter k now id (n id)), ← (h id).pipeline, hp]
      exact Circumstances.store_turn_complete hpoint (g.own id p hp ▸ hgranted)
    have hrows := f.rows_aloneAfter_subset k now id (n id + 1)
    rw [hturn, hstore] at hrows
    exact List.Subset.trans (List.subset_append_right _ _) hrows
  refine ⟨hnodup, ?_⟩
  intro x hx y hy
  by_cases hjob : y.job = id
  · refine hfree x hx y ?_
    rw [(h id).world.store.rows]
    exact List.mem_filter.mpr ⟨hy, by simpa using hjob⟩
  · -- a row of another job is one that this job has when it ends alone
    have hy' : y ∈ (f.alone k now y.job).1.store.rows := by
      refine f.rows_aloneAfter_subset k now y.job (n y.job) ?_
      rw [(h y.job).world.store.rows]
      exact List.mem_filter.mpr ⟨hy, by simp⟩
    exact hids y.job id hjob y hy' x (hown hx)

/-- A turn of the job itself. -/
theorem StandsAlone.turn_self {n : String → Nat} (hids : f.IdsDistinct k now)
    (h : ∀ id, f.StandsAlone k now g id (n id)) (now' : Moment) :
    f.StandsAlone k now (g.turn k id now') id (n id + 1) := by
  have hnext : f.aloneAfter k now id (n id + 1) =
      (k id).turn now ((f.aloneAfter k now id (n id)).1, g.pipelines id) := by
    rw [aloneAfter_succ, (h id).pipeline]
  have hsame : ((k id).turn now' (g.world, g.pipelines id)).1.Mirrors id
        (f.aloneAfter k now id (n id + 1)).1 ∧
      ((k id).turn now' (g.world, g.pipelines id)).2 = (f.aloneAfter k now id (n id + 1)).2 := by
    rw [hnext]
    cases hp : g.pipelines id with
    | none => exact ⟨(h id).world, rfl⟩
    | some p =>
      obtain rfl := g.own id p hp
      refine Circumstances.mirrors_turn (h p.job).world ?_
      intro findings stats store hpoint hgranted
      exact insertable_of_alone hids h hp hpoint hgranted
  refine ⟨hsame.1, ?_⟩
  show Function.update g.pipelines id _ id = _
  rw [Function.update_self, hsame.2]

theorem turns_concat (schedule : List (String × Moment)) (id id' : String) (now : Moment) :
    turns (schedule ++ [(id', now)]) id = turns schedule id + if id' = id then 1 else 0 := by
  simp [turns, List.count_append, List.count_singleton]

/-- **After any turns, each job stands where it stands alone after its own turns.** -/
theorem run_standsAlone (hids : f.IdsDistinct k now) (schedule : List (String × Moment))
    (id : String) : f.StandsAlone k now (f.run k schedule) id (turns schedule id) := by
  induction schedule using List.reverseRecOn generalizing id with
  | nil => exact ⟨f.world.mirrors_only id, rfl⟩
  | append_singleton schedule next ih =>
    obtain ⟨id', now'⟩ := next
    have hrun : f.run k (schedule ++ [(id', now')]) = (f.run k schedule).turn k id' now' :=
      List.foldl_concat ..
    rw [hrun, turns_concat]
    split
    · next hid =>
      subst hid
      exact .turn_self hids ih now'
    · next hid => exact (ih id).turn_other (Ne.symm hid) now'

/-- **Each job ends as it does alone.** Whatever the order of the turns: a job that has had as many as
its pipeline has steps left has come to its end, as it does alone; and once it has, it is read back as
it is alone — its stage, its languages, its findings in their order, its review and its error, and
everything else but the moment of its completion. -/
theorem ends_as_alone (k : String → Circumstances σ) (f : Fleet σ) (now : Moment)
    (hids : f.IdsDistinct k now) (schedule : List (String × Moment)) (id : String) :
    (Pipeline.left (f.pipelines id) ≤ turns schedule id → (f.run k schedule).pipelines id = none) ∧
      (f.alone k now id).2 = none ∧
      ((f.run k schedule).pipelines id = none →
        ((f.run k schedule).world.store.get id).map Job.undated =
          ((f.alone k now id).1.store.get id).map Job.undated) := by
  have hstands := run_standsAlone hids schedule id
  have hend : (f.alone k now id).2 = none := Circumstances.iterate_turn_eq_none (Nat.le_refl _)
  refine ⟨?_, hend, ?_⟩
  · intro hturns
    rw [hstands.pipeline]
    exact Circumstances.iterate_turn_eq_none hturns
  · intro hnone
    rw [hstands.pipeline] at hnone
    have hsame : f.aloneAfter k now id (turns schedule id) = f.alone k now id := by
      rcases Nat.le_total (turns schedule id) (Pipeline.left (f.pipelines id)) with hle | hle
      · exact (Circumstances.iterate_turn_of_none hnone hle).symm
      · exact Circumstances.iterate_turn_of_none hend hle
    rw [hstands.world.store.get, hsame]

/-! ### Three jobs -/

/-- What a tool reports about each of three jobs. -/
def reported : List ToolResult := [⟨"bandit", [⟨"app.py", "d", "high", some 3, none⟩], false, none⟩]

/-- The record of a job that has been requested. -/
def requestedRecord (id : String) : JobRecord :=
  { id := id, address := requestAddress, status := .pending, created := requestMoment
    expires := requestMoment }

/-- Three jobs that have been requested. -/
def three : Fleet Unit where
  world := {
    store := { records := ["a", "b", "c"].map requestedRecord }
    signals := ["a", "b", "c"].map fun id => (id, false)
    outside := () }
  pipelines id :=
    if id ∈ ["a", "b", "c"] then some (.initial id (["a", "b", "c"].idxOf id + 1)) else none
  own id p h := by
    split at h
    · obtain rfl := Option.some.inj h
      rfl
    · cases h

/-- The last of three jobs is asked to stop while its languages are looked for. -/
def lastStopped (id : String) : Circumstances Unit where
  stages := .prompt id reported
  stopped point := id = "c" && point.rank = Point.detect.rank
  steady := .prompt id reported

/-- Turns of three jobs, one after the other and round again. -/
def roundRobin : List (String × Moment) :=
  (List.replicate 19 (["a", "b", "c"].map fun id => (id, requestMoment))).flatten

theorem three_idsDistinct : three.IdsDistinct lastStopped requestMoment := by
  have hothers : ∀ id, id ∉ ["a", "b", "c"] →
      (three.alone lastStopped requestMoment id).1.store.rows = [] := by
    intro id hid
    have hnone : three.pipelines id = none := if_neg hid
    rw [alone_of_none hnone]
    rfl
  have hthree : ∀ id ∈ ["a", "b", "c"], ∀ id' ∈ ["a", "b", "c"], id ≠ id' →
      ∀ x ∈ (three.alone lastStopped requestMoment id).1.store.rows,
        ∀ y ∈ (three.alone lastStopped requestMoment id').1.store.rows,
          x.finding.id ≠ y.finding.id := by decide +kernel
  intro id id' hne x hx y hy
  by_cases hid : id ∈ ["a", "b", "c"]
  · by_cases hid' : id' ∈ ["a", "b", "c"]
    · exact hthree id hid id' hid' hne x hx y hy
    · rw [hothers id' hid'] at hy
      exact absurd hy List.not_mem_nil
  · rw [hothers id hid] at hx
    exact absurd hx List.not_mem_nil

/-- Of three jobs that take turns, one completes with its finding and one fails, as they do alone. -/
theorem ends_as_alone_three :
    three.IdsDistinct lastStopped requestMoment ∧
      ((three.run lastStopped roundRobin).world.store.get "a").map Job.undated =
        ((three.alone lastStopped requestMoment "a").1.store.get "a").map Job.undated ∧
      ((three.alone lastStopped requestMoment "a").1.store.get "a").toOption.map
        (fun j => (j.status, j.findings.length)) = some (.completed, 1) ∧
      ((three.run lastStopped roundRobin).world.store.get "c").map Job.undated =
        ((three.alone lastStopped requestMoment "c").1.store.get "c").map Job.undated ∧
      ((three.alone lastStopped requestMoment "c").1.store.get "c").toOption.map
        (fun j => (j.status, j.findings.length)) = some (.failed, 0) := by
  have hends := ends_as_alone lastStopped three requestMoment three_idsDistinct roundRobin
  refine ⟨three_idsDistinct, ?_, by decide +kernel, ?_, by decide +kernel⟩
  · exact (hends "a").2.2 ((hends "a").1 (by decide +kernel))
  · exact (hends "c").2.2 ((hends "c").1 (by decide +kernel))

end Fleet

end RepoAudit
