import Mathlib.Logic.Function.Iterate
import RepoAudit.Proofs.Service.Waiting
import RepoAudit.Proofs.Store.Mirror

/-!
# The turns of a job

A pipeline takes its turns while other jobs are worked on. Its steps ask the shared world for little:
for the record, the rows and the signal of its own job, and when it writes its findings, whether their
identifiers are free. What other jobs do touches none of this but the last.

* `Circumstances` — what is fixed about a job: its stages, whose answers depend on what they are asked
  and on the signal only, and the points at which its signal fires;
* `Circumstances.turn` — a turn of its pipeline;
* `World.Mirrors` — a world that holds what another one holds about one job;
* `World.Mirrors.step`, `World.Mirrors.other` — **a step comes to the same in both worlds, and the first
  may take steps of other jobs in between**;
* `Circumstances.iterate_turn_eq_none` — a pipeline comes to its end after enough turns.
-/

namespace RepoAudit

variable {σ α : Type}

/-! ### What is fixed about a job -/

/-- Work whose answer depends on the signal only, and so does whether the signal has fired after it. -/
def Setting.Steady (work : Setting σ → α × Setting σ) : Prop :=
  ∀ st st', st.signal = st'.signal →
    (work st).1 = (work st').1 ∧ (work st).2.signal.isFired = (work st').2.signal.isFired

/-- Stages whose answers depend on what they are asked and on the signal only. -/
structure Stages.Steady (s : Stages σ) : Prop where
  fetch : ∀ address, Setting.Steady (s.fetch address)
  detect : ∀ path, Setting.Steady (s.detect path)
  scan : ∀ path languages, Setting.Steady (s.scan path languages)
  review : ∀ review ∈ s.review, ∀ path findings, Setting.Steady (review path findings)

/-- Stages of which each succeeds at once answer the same whatever happens. -/
theorem Stages.Steady.prompt (path : String) (results : List ToolResult) :
    (Stages.prompt path results).Steady where
  fetch _ _ _ h := ⟨rfl, congrArg Signal.isFired h⟩
  detect _ _ _ h := ⟨rfl, congrArg Signal.isFired h⟩
  scan _ _ _ _ h := ⟨rfl, congrArg Signal.isFired h⟩
  review _ hreview := nomatch hreview

/-- What is fixed about a job: the stages, and the points at which it is asked to stop. -/
structure Circumstances (σ : Type) where
  stages : Stages σ
  stopped : Point → Bool
  steady : stages.Steady

/-- The world in which the next step of a pipeline is taken: the signal may fire before. -/
def Circumstances.before (k : Circumstances σ) (w : World σ) (p : Pipeline) : World σ :=
  if k.stopped p.point then w.fire p.job else w

/-- A turn of a pipeline, if there still is one. -/
def Circumstances.turn (k : Circumstances σ) (now : Moment) :
    World σ × Option Pipeline → World σ × Option Pipeline
  | (w, none) => (w, none)
  | (w, some p) => p.step k.stages now (k.before w p)

/-! ### A world of its own -/

namespace World

variable {w own : World σ} {id : String}

/-- The second world holds of a job what the first one does: the record but for the moment of its
completion, the rows and the signal. It has no other rows. -/
structure Mirrors (id : String) (w own : World σ) : Prop where
  store : w.store.Mirrors id own.store
  signal : own.signals.lookup id = w.signals.lookup id

theorem Mirrors.signal_eq (h : w.Mirrors id own) : own.signal id = w.signal id := by
  rw [World.signal, World.signal, h.signal]

theorem Mirrors.fire (h : w.Mirrors id own) : (w.fire id).Mirrors id (own.fire id) where
  store := h.store
  signal := by rw [lookup_fire, lookup_fire, h.signal]

/-- The signal of another job may fire. -/
theorem Mirrors.fire_other {id' : String} (h : w.Mirrors id own) (hid : id ≠ id') :
    (w.fire id').Mirrors id own where
  store := h.store
  signal := by rw [lookup_fire_other w hid, h.signal]

theorem Mirrors.dropSignal (h : w.Mirrors id own) :
    (w.dropSignal id).Mirrors id (own.dropSignal id) where
  store := h.store
  signal := by rw [lookup_dropSignal, lookup_dropSignal, h.signal]

/-- Steady work answers the same in both worlds. -/
theorem Mirrors.during {work : Setting σ → α × Setting σ} (h : w.Mirrors id own)
    (hwork : Setting.Steady work) :
    (w.during id work).1 = (own.during id work).1 ∧
      (w.during id work).2.Mirrors id (own.during id work).2 := by
  obtain ⟨hanswer, hfired⟩ := hwork ⟨w.signal id, w.limiter, w.outside⟩
    ⟨own.signal id, own.limiter, own.outside⟩ h.signal_eq.symm
  refine ⟨hanswer, ?_⟩
  simp only [World.during, hfired]
  split
  · exact Mirrors.fire ⟨h.store, h.signal⟩
  · exact ⟨h.store, h.signal⟩

/-- A request to both worlds that agree on it. -/
theorem Mirrors.tell {x y : Except JobError Store} (h : w.Mirrors id own)
    (hxy : Store.Agree id x y) (status : JobStatus) :
    (w.tell id status x).2.Mirrors id (own.tell id status y).2 ∧
      ∀ (p : Pipeline) (next : Point), p.unlessRefused (w.tell id status x).1 next =
        p.unlessRefused (own.tell id status y).1 next := by
  cases hxy with
  | granted hstore => exact ⟨⟨hstore, h.signal⟩, fun _ _ => rfl⟩
  | refused e e' => exact ⟨⟨h.store, h.signal⟩, fun _ _ => rfl⟩

theorem Mirrors.unlessFired {p : Pipeline} (h : w.Mirrors p.job own) (next : Point) :
    Pipeline.unlessFired w p next = Pipeline.unlessFired own p next := by
  rw [Pipeline.unlessFired, Pipeline.unlessFired, h.signal_eq]

/-- **A step in the shared world is the same step as in a world of its own.** Only when a completion is
granted in the world of its own, the shared one must be able to take the rows. -/
theorem Mirrors.step {s : Stages σ} {p : Pipeline} {now now' : Moment} (h : w.Mirrors p.job own)
    (hs : s.Steady)
    (hfree : ∀ findings stats store, p.point = .complete findings stats →
      own.store.complete now' p.job findings stats = .ok store →
      w.store.Insertable (Store.rowsOf p.job findings)) :
    (p.step s now w).1.Mirrors p.job (p.step s now' own).1 ∧
      (p.step s now w).2 = (p.step s now' own).2 := by
  obtain ⟨job, serial, path, point⟩ := p
  cases point with
  | load =>
    have hget := h.store.get
    simp only [Pipeline.step]
    generalize w.store.get job = x at hget
    generalize own.store.get job = y at hget
    cases x with
    | error e =>
      cases y with
      | error e' => exact ⟨h, rfl⟩
      | ok j' => cases hget
    | ok j =>
      cases y with
      | error e' => cases hget
      | ok j' =>
        have hsame : j.undated = j'.undated := Except.ok.inj hget
        have haddress := congrArg Job.address hsame
        exact ⟨h, congrArg (fun a => some (Pipeline.goTo _ (.checkLoaded a))) haddress⟩
  | markCloning address =>
    obtain ⟨hworld, hnext⟩ := h.tell (h.store.transition .cloning) .cloning
    exact ⟨hworld, congrArg some (hnext _ _)⟩
  | fetch address =>
    obtain ⟨hanswer, hworld⟩ := h.during (hs.fetch address)
    simp only [Pipeline.step, hanswer]
    rcases (own.during job (s.fetch address)).1 with (_ | _) | _ <;> exact ⟨hworld, rfl⟩
  | markScanning =>
    obtain ⟨hworld, hnext⟩ := h.tell (h.store.transition .scanning) .scanning
    exact ⟨hworld, congrArg some (hnext _ _)⟩
  | detect =>
    obtain ⟨hanswer, hworld⟩ := h.during (hs.detect path)
    simp only [Pipeline.step, hanswer]
    rcases (own.during job (s.detect path)).1 with (_ | _) | _ <;> exact ⟨hworld, rfl⟩
  | saveLanguages languages =>
    have hagree := h.store.setLanguages (languages.map Language.name)
    simp only [Pipeline.step]
    generalize w.store.setLanguages job (languages.map Language.name) = x at hagree
    generalize own.store.setLanguages job (languages.map Language.name) = y at hagree
    cases hagree with
    | granted hstore => exact ⟨⟨hstore, h.signal⟩, rfl⟩
    | refused e e' => exact ⟨h, rfl⟩
  | scan languages =>
    obtain ⟨hanswer, hworld⟩ := h.during (hs.scan path languages)
    refine ⟨hworld, ?_⟩
    simp only [Pipeline.step, hanswer]
  | markReviewing findings =>
    obtain ⟨hworld, hnext⟩ := h.tell (h.store.transition .reviewing) .reviewing
    exact ⟨hworld, congrArg some (hnext _ _)⟩
  | review findings =>
    simp only [Pipeline.step]
    cases hreview : s.review with
    | none => exact ⟨h, rfl⟩
    | some review =>
      obtain ⟨hanswer, hworld⟩ := h.during (hs.review review hreview path findings)
      simp only [hanswer]
      rcases (own.during job (review path findings)).1 with _ | _ <;> exact ⟨hworld, rfl⟩
  | complete findings stats =>
    have hagree : Store.Agree job (w.store.complete now job findings stats)
        (own.store.complete now' job findings stats) :=
      h.store.complete now now' fun store hstore => hfree findings stats store rfl hstore
    obtain ⟨hworld, hnext⟩ := h.tell hagree .completed
    exact ⟨hworld, congrArg some (hnext _ _)⟩
  | report message =>
    obtain ⟨hworld, hnext⟩ := h.tell (h.store.fail now now' message) .failed
    exact ⟨hworld, congrArg some (hnext _ _)⟩
  | giveUp message =>
    obtain ⟨hworld, -⟩ := h.tell (h.store.fail now now' message) .failed
    exact ⟨hworld, rfl⟩
  | cleanUp =>
    refine ⟨?_, rfl⟩
    simp only [Pipeline.step]
    split
    · exact h
    · exact ⟨h.store, h.signal⟩
  | forget => exact ⟨h.dropSignal, rfl⟩
  | leave => exact ⟨h, rfl⟩
  | _ => exact ⟨h, congrArg some (h.unlessFired _)⟩

/-- What another job does is not seen in the world of a job of its own. -/
theorem Mirrors.other {w' : World σ} {id' : String} (h : w.Mirrors id own)
    (heffect : w.Effect id' w') (hid : id ≠ id') : w'.Mirrors id own where
  store := by
    have hm := heffect.meanwhile hid
    exact ⟨by rw [hm.record, h.store.record], by rw [hm.rows, h.store.rows]⟩
  signal := by
    rw [h.signal]
    exact (heffect.lookup_other hid).symm

end World

/-! ### Turns -/

/-- How many steps are left of a pipeline, if there still is one. -/
def Pipeline.left (q : Option Pipeline) : Nat := q.elim 0 fun p => p.point.rank

namespace Circumstances

variable {k : Circumstances σ} {now : Moment} {w : World σ}

@[simp] theorem store_before (k : Circumstances σ) (w : World σ) (p : Pipeline) :
    (k.before w p).store = w.store := by
  rw [before]
  split <;> rfl

theorem turn_none (k : Circumstances σ) (now : Moment) (w : World σ) :
    k.turn now (w, none) = (w, none) := rfl

theorem turn_some (k : Circumstances σ) (now : Moment) (w : World σ) (p : Pipeline) :
    k.turn now (w, some p) = p.step k.stages now (k.before w p) := rfl

/-- A turn in the shared world is the same turn as in a world of its own. -/
theorem mirrors_turn {own : World σ} {p : Pipeline} {now' : Moment} (h : w.Mirrors p.job own)
    (hfree : ∀ findings stats store, p.point = .complete findings stats →
      own.store.complete now' p.job findings stats = .ok store →
      w.store.Insertable (Store.rowsOf p.job findings)) :
    (k.turn now (w, some p)).1.Mirrors p.job (k.turn now' (own, some p)).1 ∧
      (k.turn now (w, some p)).2 = (k.turn now' (own, some p)).2 := by
  rw [turn_some, turn_some]
  have hbefore : (k.before w p).Mirrors p.job (k.before own p) := by
    rw [before, before]
    split
    · exact h.fire
    · exact h
  refine hbefore.step k.steady ?_
  intro findings stats store hpoint hgranted
  rw [store_before] at hgranted ⊢
  exact hfree findings stats store hpoint hgranted

/-- A turn of another job is not seen in the world of a job of its own. -/
theorem mirrors_turn_other {own : World σ} {p : Pipeline} {id : String} (h : w.Mirrors id own)
    (hid : id ≠ p.job) : (k.turn now (w, some p)).1.Mirrors id own := by
  have hbefore : (k.before w p).Mirrors id own := by
    rw [before]
    split
    · exact h.fire_other hid
    · exact h
  exact hbefore.other (Pipeline.step_effect _ _ _ _) hid

/-- A completion that is granted is all that its turn does to the store. -/
theorem store_turn_complete {p : Pipeline} {findings : List Finding} {stats : Option ReviewStats}
    {store : Store} (hpoint : p.point = .complete findings stats)
    (h : w.store.complete now p.job findings stats = .ok store) :
    (k.turn now (w, some p)).1.store = store := by
  rw [← k.store_before w p] at h
  rw [turn_some]
  simp only [Pipeline.step, hpoint, h]
  rfl

/-- A pipeline stays with its job. -/
theorem job_of_turn {q : Option Pipeline} {p' : Pipeline} (h : (k.turn now (w, q)).2 = some p') :
    ∃ p, q = some p ∧ p'.job = p.job := by
  cases q with
  | none => cases h
  | some p => exact ⟨p, rfl, (Pipeline.step_next (Prod.ext rfl h)).1⟩

/-- A turn leaves less to do, if there was anything left. -/
theorem left_turn_le (k : Circumstances σ) (now : Moment) (x : World σ × Option Pipeline) :
    Pipeline.left (k.turn now x).2 ≤ Pipeline.left x.2 - 1 := by
  obtain ⟨w, q⟩ := x
  cases q with
  | none => exact Nat.le_refl 0
  | some p =>
    rw [turn_some]
    cases hq : (p.step k.stages now (k.before w p)).2 with
    | none => exact Nat.zero_le _
    | some p' =>
      have hrank : p'.point.rank < p.point.rank := Pipeline.rank_step (Prod.ext rfl hq)
      show p'.point.rank ≤ p.point.rank - 1
      omega

theorem eq_none_of_left_eq_zero {q : Option Pipeline} (h : Pipeline.left q = 0) : q = none := by
  cases q with
  | none => rfl
  | some p =>
    have hpos := Pipeline.rank_pos p.point
    exact absurd h hpos.ne'

/-- Enough turns bring a pipeline to its end. -/
theorem iterate_turn_eq_none {n : Nat} {x : World σ × Option Pipeline}
    (h : Pipeline.left x.2 ≤ n) : ((k.turn now)^[n] x).2 = none := by
  induction n generalizing x with
  | zero => exact eq_none_of_left_eq_zero (Nat.le_zero.mp h)
  | succ n ih =>
    have hle := k.left_turn_le now x
    exact ih (by omega)

/-- Once a pipeline is at its end, nothing happens any more. -/
theorem iterate_turn_of_none {m n : Nat} {x : World σ × Option Pipeline}
    (h : ((k.turn now)^[m] x).2 = none) (hle : m ≤ n) :
    (k.turn now)^[n] x = (k.turn now)^[m] x := by
  obtain ⟨d, rfl⟩ := Nat.exists_eq_add_of_le' hle
  have hstill : k.turn now ((k.turn now)^[m] x) = (k.turn now)^[m] x := by
    rw [← Prod.eta ((k.turn now)^[m] x), h, turn_none]
  rw [Function.iterate_add_apply, Function.iterate_fixed hstill d]

/-- Turns take no rows out of the store. -/
theorem rows_subset_turn (k : Circumstances σ) (now : Moment) (x : World σ × Option Pipeline) :
    x.1.store.rows ⊆ (k.turn now x).1.store.rows := by
  obtain ⟨w, q⟩ := x
  cases q with
  | none => exact List.Subset.refl _
  | some p =>
    rw [turn_some, ← k.store_before w p]
    exact (Pipeline.step_effect k.stages now _ p).rows_subset

theorem rows_subset_iterate_turn (k : Circumstances σ) (now : Moment) (n : Nat)
    (x : World σ × Option Pipeline) : x.1.store.rows ⊆ ((k.turn now)^[n] x).1.store.rows := by
  induction n generalizing x with
  | zero => exact List.Subset.refl _
  | succ n ih => exact List.Subset.trans (k.rows_subset_turn now x) (ih _)

/-- The rows after any turns are among those at the end. -/
theorem rows_iterate_turn_subset (k : Circumstances σ) (now : Moment) (n : Nat)
    (x : World σ × Option Pipeline) : ((k.turn now)^[n] x).1.store.rows ⊆
      ((k.turn now)^[Pipeline.left x.2] x).1.store.rows := by
  rcases Nat.le_total n (Pipeline.left x.2) with hle | hle
  · obtain ⟨m, hm⟩ := Nat.exists_eq_add_of_le' hle
    rw [hm, Function.iterate_add_apply]
    exact k.rows_subset_iterate_turn now m _
  · rw [iterate_turn_of_none (iterate_turn_eq_none (Nat.le_refl _)) hle]
    exact List.Subset.refl _

theorem before_of_quiet (hstopped : ∀ point, k.stopped point = false) (w : World σ) (p : Pipeline) :
    k.before w p = w := by
  rw [before, hstopped]
  rfl

/-- As long as no signal fires, turns are the steps of the pipeline. -/
theorem steps_eq_iterate_turn (hstopped : ∀ point, k.stopped point = false) (n : Nat) (w : World σ)
    (p : Pipeline) : p.steps k.stages now n w = (k.turn now)^[n] (w, some p) := by
  induction n generalizing w p with
  | zero => rfl
  | succ n ih =>
    have hturn : k.turn now (w, some p) = p.step k.stages now w := by
      rw [turn_some, before_of_quiet hstopped]
    rw [Pipeline.steps, Function.iterate_succ_apply, hturn]
    cases hstep : p.step k.stages now w with
    | mk w' q =>
      cases q with
      | none => exact (Function.iterate_fixed (k.turn_none now w') n).symm
      | some p' => exact ih w' p'

end Circumstances

end RepoAudit
