import RepoAudit.Proofs.Service.Run
import RepoAudit.Service.Basic

/-!
# The states a service can reach

A service starts over a store that may hold jobs of the past. Scans are requested and cancelled, the
pipelines advance in any order, and the pool may be closed.

* `Service.StartOutcome` — the four ways in which a request for a scan ends;
* `Service.Step`, `Service.Reachable` — what can happen to a service, and what it can come to;
* `Service.Sound` — rows, notices, signals and pipelines belong to stored jobs, each job having one
  pipeline at most; `Service.Reachable.sound` — **every reachable service is sound**;
* `Service.Step.move`, `Service.run_moves` — **whatever happens to a service is a move in the run of
  each of its jobs**.
-/

namespace RepoAudit

open Relation

variable {σ : Type}

/-- The pipeline of a job that has just been handed to the pool. -/
def Pipeline.initial (id : String) (serial : Nat) : Pipeline := ⟨id, serial, "", .load⟩

namespace Service

variable {s s' : Service σ} {now : Moment} {id : String}

/-! ### Requests -/

/-- The service once a job is stored and its signal is in the table. -/
def withJob (s : Service σ) (job : Job) (store : Store) : Service σ :=
  { s with
    world := { s.world with
      store := store
      signals := s.world.signals ++ [(job.id, false)]
      notices := s.world.notices ++ [⟨job.id, job.status, true⟩] }
    issued := s.issued + 1 }

/-- How a request for a scan ends. -/
inductive StartOutcome (now : Moment) (s : Service σ) : Except StartError Job × Service σ → Prop
  | rejected (e : StartError) : StartOutcome now s (.error e, s)
  | refused (job : Job) (e : JobError) :
      StartOutcome now s
        (.error (.job e), { s with world := (s.world.tell job.id job.status (.error e)).2 })
  | stored {job : Job} {store : Store} :
      job.status = .pending → job.error = none → s.world.store.create now job = .ok store →
      s.closed = true → StartOutcome now s (.error .closed, s.withJob job store)
  | handedOver {job : Job} {store : Store} :
      job.status = .pending → job.error = none → s.world.store.create now job = .ok store →
      s.closed = false →
      StartOutcome now s (.ok job, { s.withJob job store with
        pipelines := s.pipelines ++ [.initial job.id (s.issued + 1)] })

theorem create?_fresh {id address : String} {days : Int} {now : Moment} {job : Job}
    (h : Job.create? id address days now = some job) :
    job.id = id ∧ job.status = .pending ∧ job.error = none := by
  obtain ⟨expires, -, rfl⟩ := Option.map_eq_some_iff.mp h
  exact ⟨rfl, rfl, rfl⟩

theorem start_outcome (s : Service σ) (now : Moment) (address : String) :
    s.StartOutcome now (s.start now address) := by
  unfold start
  split
  · exact .rejected _
  · split
    · exact .rejected _
    · next job hcreate =>
      obtain ⟨-, hstatus, herror⟩ := create?_fresh hcreate
      cases hstore : s.world.store.create now job with
      | error e => exact .refused job e
      | ok store =>
        simp only [World.tell]
        split
        · next hclosed => exact .stored hstatus herror hstore hclosed
        · next hopen => exact .handedOver hstatus herror hstore (by simpa using hopen)

/-! ### What can happen to a service -/

/-- The service once a pipeline has advanced to `q`. -/
def settle (s : Service σ) (p : Pipeline) (w : World σ) (q : Option Pipeline) : Service σ :=
  { s with
    world := w
    pipelines := s.pipelines.filterMap fun p' => if p'.job = p.job then q else some p' }

/-- What can happen to a service. -/
inductive Step (s : Service σ) : Service σ → Prop
  | start (now : Moment) (address : String) : Step s (s.start now address).2
  | cancel (id : String) : Step s (s.cancel id).2
  | advance {p : Pipeline} {w : World σ} {q : Option Pipeline} :
      p ∈ s.pipelines → p.Advance s.stages s.world w q → Step s (s.settle p w q)
  | close (waiting : Bool) :
      Step s { s with world := if waiting then s.world else s.world.fireAll, closed := true }

/-- A service over a store that may hold jobs of the past. -/
structure IsFresh (s : Service σ) : Prop where
  rows : ∀ x ∈ s.world.store.rows, (s.world.store.record? x.job).isSome
  signals : s.world.signals = []
  notices : s.world.notices = []
  pipelines : s.pipelines = []

/-- The states that a service can reach. -/
inductive Reachable : Service σ → Prop
  | fresh {s : Service σ} : s.IsFresh → Reachable s
  | step {s s' : Service σ} : Reachable s → s.Step s' → Reachable s'

end Service

/-! ### Everything belongs to a stored job -/

/-- Rows, granted notices and signals belong to stored jobs. -/
structure World.Owned (w : World σ) : Prop where
  rows : ∀ x ∈ w.store.rows, (w.store.record? x.job).isSome
  notices : ∀ n ∈ w.notices, n.granted → (w.store.record? n.job).isSome
  signals : ∀ id, w.Listed id → (w.store.record? id).isSome

namespace World

variable {w w' : World σ} {id id' : String}

/-- A job that is not stored has no rows, no history and no signal. -/
theorem Owned.nothing (ho : w.Owned) (h : w.store.record? id = none) :
    w.store.rowsFor id = [] ∧ w.history id = [] ∧ ¬ w.Listed id := by
  refine ⟨List.filter_eq_nil_iff.mpr fun x hx hid => ?_, ?_, fun hlisted => ?_⟩
  · have hstored := ho.rows x hx
    rw [of_decide_eq_true hid, h] at hstored
    exact absurd hstored (by simp)
  · rw [history, List.map_eq_nil_iff]
    refine List.filter_eq_nil_iff.mpr fun n hn hmatch => ?_
    obtain ⟨hid, hgranted⟩ : n.job = id ∧ n.granted = true := by simpa using hmatch
    have hstored := ho.notices n hn hgranted
    rw [hid, h] at hstored
    exact absurd hstored (by simp)
  · have hstored := ho.signals id hlisted
    rw [h] at hstored
    exact absurd hstored (by simp)

theorem Owned.answer {c : Store.Call} {store : Store} (ho : w.Owned)
    (h : w.store.answer c = .ok store) : World.Owned { w with store := store } where
  rows x hx := by
    rcases Store.mem_rows_answer h hx with hold | hown
    · exact Store.isSome_record?_answer h (ho.rows x hold)
    · rw [hown]
      exact Store.isSome_record?_answer_self h
  notices n hn hgranted := Store.isSome_record?_answer h (ho.notices n hn hgranted)
  signals id hid := Store.isSome_record?_answer h (ho.signals id hid)

theorem Owned.notice {n : Notice} (ho : w.Owned)
    (h : n.granted → (w.store.record? n.job).isSome) :
    World.Owned { w with notices := w.notices ++ [n] } where
  rows := ho.rows
  notices m hm hgranted := by
    rcases List.mem_append.mp hm with hold | hnew
    · exact ho.notices m hold hgranted
    · rw [List.mem_singleton.mp hnew] at hgranted ⊢
      exact h hgranted
  signals := ho.signals

theorem Owned.of_same (ho : w.Owned) (hstore : w'.store = w.store) (hnotices : w'.notices = w.notices)
    (hsignals : ∀ id, w'.Listed id → w.Listed id) : w'.Owned where
  rows := by rw [hstore]; exact ho.rows
  notices := by rw [hstore, hnotices]; exact ho.notices
  signals id hid := by rw [hstore]; exact ho.signals id (hsignals id hid)

theorem Owned.fire (ho : w.Owned) (id : String) : (w.fire id).Owned :=
  ho.of_same rfl rfl fun id' => (meanwhile_fire w id' id).listed.mp

theorem Owned.fireAll (ho : w.Owned) : w.fireAll.Owned :=
  ho.of_same rfl rfl fun id' => (meanwhile_fireAll w id').listed.mp

theorem store_during {α : Type} (w : World σ) (id : String) (work : Setting σ → α × Setting σ) :
    (w.during id work).2.store = w.store ∧ (w.during id work).2.notices = w.notices := by
  simp only [during]
  split <;> exact ⟨rfl, rfl⟩

theorem Effect.owned (h : Effect id w w') (ho : w.Owned) : w'.Owned := by
  cases h with
  | nothing => exact ho
  | asked status c hjob =>
    subst hjob
    cases hans : w.store.answer c with
    | error e => exact ho.notice (by simp)
    | ok store => exact (ho.answer hans).notice fun _ => Store.isSome_record?_answer_self hans
  | refused status e => exact ho.notice (by simp)
  | written c store hjob hans => exact ho.answer hans
  | worked work =>
    obtain ⟨hstore, hnotices⟩ := store_during w id work
    exact ho.of_same hstore hnotices fun id' => (meanwhile_during w id' id work).listed.mp
  | touched outside => exact ho.of_same rfl rfl fun _ hid => hid
  | dropped =>
    refine ho.of_same rfl rfl fun id' hid => ?_
    rw [Listed, dropSignal] at hid
    exact (List.filter_sublist.map Prod.fst).subset hid

/-- A job writes rows of its own only. -/
theorem Effect.rows {x : FindingRow} (h : Effect id w w') (hx : x ∈ w'.store.rows) :
    x ∈ w.store.rows ∨ x.job = id := by
  cases h with
  | asked status c hjob =>
    subst hjob
    cases hans : w.store.answer c with
    | error e =>
      rw [hans] at hx
      exact .inl hx
    | ok store =>
      rw [hans] at hx
      exact Store.mem_rows_answer hans hx
  | written c store hjob hans =>
    subst hjob
    exact Store.mem_rows_answer hans hx
  | worked work =>
    rw [(store_during w id work).1] at hx
    exact .inl hx
  | _ => exact .inl hx

/-- A job takes no rows out of the store. -/
theorem Effect.rows_subset (h : Effect id w w') : w.store.rows ⊆ w'.store.rows := by
  cases h with
  | asked status c hjob =>
    cases hans : w.store.answer c with
    | error e => exact List.Subset.refl _
    | ok store => exact Store.rows_subset_answer hans
  | written c store hjob hans => exact Store.rows_subset_answer hans
  | worked work =>
    rw [(store_during w id work).1]
    exact List.Subset.refl _
  | _ => exact List.Subset.refl _

/-- No job vanishes from the store. -/
theorem Effect.stored (h : Effect id w w') (hid : (w.store.record? id').isSome) :
    (w'.store.record? id').isSome := by
  cases h with
  | asked status c hjob =>
    cases hans : w.store.answer c with
    | error e => exact hid
    | ok store => exact Store.isSome_record?_answer hans hid
  | written c store hjob hans => exact Store.isSome_record?_answer hans hid
  | worked work => rwa [(store_during w id work).1]
  | _ => exact hid

end World

namespace Service

variable {s s' : Service σ} {now : Moment} {id : String}

/-- Everything in the world of a service belongs to a stored job, every pipeline too, and no job has
two of them. -/
structure Sound (s : Service σ) : Prop where
  owned : s.world.Owned
  stored : ∀ p ∈ s.pipelines, (s.world.store.record? p.job).isSome
  distinct : (s.pipelines.map Pipeline.job).Nodup

theorem IsFresh.sound (h : s.IsFresh) : s.Sound where
  owned := {
    rows := h.rows
    notices := by simp [h.notices]
    signals := by simp [World.Listed, h.signals] }
  stored := by simp [h.pipelines]
  distinct := by simp [h.pipelines]

/-- Storing a job: the request itself, then its signal in the table. -/
theorem owned_withJob {job : Job} {store : Store} (ho : s.world.Owned)
    (h : s.world.store.create now job = .ok store) : (s.withJob job store).world.Owned := by
  have hans : s.world.store.answer (.create now job) = .ok store := h
  have hself := Store.isSome_record?_answer_self hans
  have hbase := (ho.answer hans).notice (n := ⟨job.id, job.status, true⟩) fun _ => hself
  refine ⟨hbase.rows, hbase.notices, fun id hid => ?_⟩
  rw [withJob, World.Listed, List.map_append, List.mem_append] at hid
  rcases hid with hold | hnew
  · exact hbase.signals id hold
  · rw [List.mem_singleton.mp hnew]
    exact hself

theorem record?_of_create {store : Store} {job : Job}
    (h : s.world.store.create now job = .ok store) : s.world.store.record? job.id = none := by
  obtain ⟨expires, -, hnone, -⟩ := Store.create_eq_ok_iff.mp h
  exact hnone

/-- A request writes no rows. -/
theorem rows_start (s : Service σ) (now : Moment) (address : String) :
    (s.start now address).2.world.store.rows = s.world.store.rows := by
  have hstart := s.start_outcome now address
  generalize s.start now address = out at hstart ⊢
  cases hstart with
  | rejected e => rfl
  | refused job e => rfl
  | stored hstatus herror hcreate hclosed => exact (Store.record?_create hcreate).2
  | handedOver hstatus herror hcreate hopen => exact (Store.record?_create hcreate).2

theorem Sound.start_sound (hs : s.Sound) (now : Moment) (address : String) :
    (s.start now address).2.Sound := by
  have hstart := s.start_outcome now address
  generalize s.start now address = out at hstart ⊢
  cases hstart with
  | rejected e => exact hs
  | refused job e =>
    exact ⟨hs.owned.notice (by simp), hs.stored, hs.distinct⟩
  | stored hstatus herror hcreate hclosed =>
    have hans : s.world.store.answer (.create now _) = .ok _ := hcreate
    exact ⟨owned_withJob hs.owned hcreate,
      fun p hp => Store.isSome_record?_answer hans (hs.stored p hp), hs.distinct⟩
  | @handedOver job store hstatus herror hcreate hopen =>
    have hans : s.world.store.answer (.create now job) = .ok store := hcreate
    refine ⟨owned_withJob hs.owned hcreate, fun p hp => ?_, ?_⟩
    · rcases List.mem_append.mp hp with hold | hnew
      · exact Store.isSome_record?_answer hans (hs.stored p hold)
      · rw [List.mem_singleton.mp hnew]
        exact Store.isSome_record?_answer_self hans
    · rw [List.map_append, List.nodup_append]
      refine ⟨hs.distinct, by simp, ?_⟩
      rintro a ha b hb rfl
      obtain ⟨p, hp, rfl⟩ := List.mem_map.mp ha
      have hstored := hs.stored p hp
      rw [List.mem_singleton.mp hb] at hstored
      have hnone : s.world.store.record? (Pipeline.initial job.id (s.issued + 1)).job = none :=
        record?_of_create hcreate
      rw [hnone] at hstored
      exact absurd hstored (by simp)

theorem Sound.cancel_sound (hs : s.Sound) (id : String) : (s.cancel id).2.Sound := by
  unfold cancel
  split
  · exact ⟨hs.owned.fire id, hs.stored, hs.distinct⟩
  · exact hs

theorem job_of_settle {p p' p'' : Pipeline} {q : Option Pipeline}
    (hq : ∀ x, q = some x → x.job = p.job)
    (h : (if p'.job = p.job then q else some p') = some p'') : p''.job = p'.job := by
  split at h
  · next hjob => rw [hq p'' h, hjob]
  · cases h
    rfl

theorem map_job_filterMap_sublist {f : Pipeline → Option Pipeline}
    (hf : ∀ p p', f p = some p' → p'.job = p.job) (l : List Pipeline) :
    ((l.filterMap f).map Pipeline.job).Sublist (l.map Pipeline.job) := by
  induction l with
  | nil => exact .slnil
  | cons p rest ih =>
    rw [List.filterMap_cons]
    split
    · exact ih.cons _
    · next p' hp' =>
      rw [List.map_cons, List.map_cons, hf p p' hp']
      exact ih.cons_cons _

theorem Sound.advance_sound {p : Pipeline} {w : World σ} {q : Option Pipeline} (hs : s.Sound)
    (h : p.Advance s.stages s.world w q) : (s.settle p w q).Sound := by
  have heffect := h.effect
  have hjob : ∀ x, q = some x → x.job = p.job := by
    rintro x rfl
    exact h.job
  refine ⟨heffect.owned hs.owned, fun p'' hp'' => ?_, ?_⟩
  · obtain ⟨p', hp', hsome⟩ := List.mem_filterMap.mp hp''
    rw [job_of_settle hjob hsome]
    exact heffect.stored (hs.stored p' hp')
  · exact hs.distinct.sublist (map_job_filterMap_sublist (fun _ _ => job_of_settle hjob) s.pipelines)

theorem Sound.step (hs : s.Sound) (h : s.Step s') : s'.Sound := by
  cases h with
  | start now address => exact hs.start_sound now address
  | cancel id => exact hs.cancel_sound id
  | advance hp hadvance => exact hs.advance_sound hadvance
  | close waiting =>
    cases waiting with
    | true => exact ⟨hs.owned, hs.stored, hs.distinct⟩
    | false => exact ⟨hs.owned.fireAll, hs.stored, hs.distinct⟩

/-- **Every reachable service is sound.** -/
theorem Reachable.sound (h : s.Reachable) : s.Sound := by
  induction h with
  | fresh hfresh => exact hfresh.sound
  | step _ hstep ih => exact ih.step hstep

/-! ### A service from the side of one job -/

/-- The pipeline of a job, if there is one. -/
def pipelineOf (s : Service σ) (id : String) : Option Pipeline :=
  s.pipelines.find? fun p => p.job = id

theorem pipelineOf_of_mem {p : Pipeline} (hs : s.Sound) (hp : p ∈ s.pipelines) :
    s.pipelineOf p.job = some p := by
  have hnodup := hs.distinct
  rw [pipelineOf]
  generalize s.pipelines = l at hp hnodup
  induction l with
  | nil => exact absurd hp List.not_mem_nil
  | cons p' rest ih =>
    rw [List.map_cons, List.nodup_cons] at hnodup
    rcases List.mem_cons.mp hp with rfl | hrest
    · simp
    · have hne : p'.job ≠ p.job := fun he => hnodup.1 (he ▸ List.mem_map_of_mem hrest)
      rw [List.find?_cons_of_neg (by simpa using hne)]
      exact ih hrest hnodup.2

/-- An advance replaces the pipeline of its own job. -/
theorem pipelineOf_settle {p : Pipeline} {w : World σ} {q : Option Pipeline} (hs : s.Sound)
    (hp : p ∈ s.pipelines) (hq : ∀ x, q = some x → x.job = p.job) :
    (s.settle p w q).pipelineOf p.job = q := by
  have hfind := pipelineOf_of_mem hs hp
  rw [pipelineOf] at hfind
  rw [pipelineOf, settle, List.find?_filterMap]
  cases q with
  | none =>
    rw [Option.bind_eq_none_iff]
    intro p' hp'
    have hany := List.find?_some hp'
    split at hany
    · simp at hany
    · next hne => simp [hne] at hany
  | some p'' =>
    have hjob : p''.job = p.job := hq p'' rfl
    have hsame : (fun p' : Pipeline => (if p'.job = p.job then some p'' else some p').any
        fun x => x.job = p.job) = fun p' => decide (p'.job = p.job) := by
      funext p'
      by_cases h : p'.job = p.job <;> simp [h, hjob]
    rw [hsame, hfind, Option.bind_some, if_pos rfl]

/-- An advance leaves the pipelines of other jobs where they are. -/
theorem pipelineOf_settle_other {p : Pipeline} {w : World σ} {q : Option Pipeline}
    (hq : ∀ x, q = some x → x.job = p.job) (hid : id ≠ p.job) :
    (s.settle p w q).pipelineOf id = s.pipelineOf id := by
  have hsame : (fun p' : Pipeline => (if p'.job = p.job then q else some p').any
      fun x => x.job = id) = fun p' => decide (p'.job = id) := by
    funext p'
    by_cases h : p'.job = p.job
    · have hne : p'.job ≠ id := fun he => hid (he ▸ h)
      cases q with
      | none => simp [h, hid.symm]
      | some p'' => simp [h, hq p'' rfl, hid.symm]
    · simp [h]
  rw [pipelineOf, settle, List.find?_filterMap, hsame, pipelineOf]
  cases hfind : s.pipelines.find? fun p' => p'.job = id with
  | none => rfl
  | some p' =>
    have hjob : p'.job = id := by simpa using List.find?_some hfind
    rw [Option.bind_some, if_neg fun he => hid (hjob ▸ he)]

theorem meanwhile_withJob {job : Job} {store : Store}
    (h : s.world.store.create now job = .ok store) (hid : id ≠ job.id) :
    s.world.Meanwhile id (s.withJob job store).world := by
  have hans : s.world.store.answer (.create now job) = .ok store := h
  have hbase := (World.meanwhile_answer hid hans).trans
    (World.meanwhile_notice _ ⟨job.id, job.status, true⟩ fun hsame => hid hsame.1.symm)
  refine ⟨hbase.record, hbase.rows, hbase.history, ?_, fun hf => ?_⟩
  · simp [withJob, World.Listed, hid]
  · rw [World.signal_eq_fired_iff] at hf ⊢
    rw [withJob, List.lookup_append, hf]
    rfl

theorem start_move (hid : (s.world.store.record? id).isSome) (now : Moment) (address : String) :
    s.world.Meanwhile id (s.start now address).2.world ∧
      (s.start now address).2.pipelineOf id = s.pipelineOf id := by
  have hne : ∀ {job : Job} {store : Store}, s.world.store.create now job = .ok store →
      id ≠ job.id := by
    rintro job store hcreate rfl
    rw [record?_of_create hcreate] at hid
    exact absurd hid (by simp)
  have hstart := s.start_outcome now address
  generalize s.start now address = out at hstart ⊢
  cases hstart with
  | rejected e => exact ⟨.refl _ _, rfl⟩
  | refused job e => exact ⟨World.meanwhile_notice _ _ (by simp), rfl⟩
  | stored hstatus herror hcreate hclosed =>
    exact ⟨meanwhile_withJob hcreate (hne hcreate), rfl⟩
  | @handedOver job store hstatus herror hcreate hopen =>
    refine ⟨meanwhile_withJob hcreate (hne hcreate), ?_⟩
    rw [pipelineOf, List.find?_append, ← pipelineOf]
    simp [Pipeline.initial, (hne hcreate).symm]

/-- A job as it is in a service. -/
def config (s : Service σ) (id : String) (log : List Use := []) : Config σ :=
  ⟨s.world, s.pipelineOf id, log⟩

/-- **Whatever happens to a service is a move in the run of each of its jobs.** -/
theorem Step.move (hs : s.Sound) (h : s.Step s') (hid : (s.world.store.record? id).isSome)
    (log : List Use) :
    ∃ log', Config.FaultyMove s.stages id (s.config id log) (s'.config id log') := by
  simp only [config]
  cases h with
  | start now address =>
    obtain ⟨hmeanwhile, hsame⟩ := start_move hid now address
    exact ⟨log, hsame ▸ .meanwhile _ log hmeanwhile⟩
  | cancel id' =>
    refine ⟨log, ?_⟩
    unfold Service.cancel
    split
    · exact .meanwhile _ log (World.meanwhile_fire s.world id id')
    · exact .meanwhile _ log (.refl _ _)
  | @advance p w q hp hadvance =>
    have hjob : ∀ x, q = some x → x.job = p.job := by
      rintro x rfl
      exact hadvance.job
    by_cases hown : id = p.job
    · subst hown
      rw [pipelineOf_settle hs hp hjob, pipelineOf_of_mem hs hp]
      exact ⟨_, .advance (Pipeline.advance_recording_iff.mpr ⟨hadvance, rfl⟩)⟩
    · rw [pipelineOf_settle_other hjob hown]
      exact ⟨log, .meanwhile _ log (hadvance.effect.meanwhile hown)⟩
  | close waiting =>
    refine ⟨log, .meanwhile _ log ?_⟩
    cases waiting with
    | true => exact .refl _ _
    | false => exact World.meanwhile_fireAll s.world id

/-- A step keeps the stages and loses no job. -/
theorem Step.keeps (h : s.Step s') (id : String) :
    s'.stages = s.stages ∧
      ((s.world.store.record? id).isSome → (s'.world.store.record? id).isSome) := by
  cases h with
  | start now address =>
    refine ⟨?_, fun hid => ?_⟩
    · cases hout : s.start now address with
      | mk answer s' =>
        have hstart := s.start_outcome now address
        rw [hout] at hstart
        cases hstart <;> rfl
    · rwa [(start_move hid now address).1.record]
  | cancel id' =>
    unfold Service.cancel
    split <;> exact ⟨rfl, fun hid => hid⟩
  | advance hp hadvance => exact ⟨rfl, hadvance.effect.stored⟩
  | close waiting => cases waiting <;> exact ⟨rfl, fun hid => hid⟩

/-- **A run of a service is a run of each of its jobs.** -/
theorem run_moves (hs : s.Sound) (h : ReflTransGen Step s s')
    (hid : (s.world.store.record? id).isSome) (log : List Use) :
    ∃ log', ReflTransGen (Config.FaultyMove s.stages id) (s.config id log) (s'.config id log') := by
  induction h using ReflTransGen.head_induction_on generalizing log with
  | refl => exact ⟨log, .refl⟩
  | head hstep _ ih =>
    obtain ⟨hstages, hstored⟩ := hstep.keeps id
    obtain ⟨log₁, hmove⟩ := hstep.move hs hid log
    obtain ⟨log₂, hrun⟩ := ih (hs.step hstep) (hstored hid) log₁
    exact ⟨log₂, .head hmove (hstages ▸ hrun)⟩

end Service

end RepoAudit
