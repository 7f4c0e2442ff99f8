import Mathlib.Logic.Relation
import RepoAudit.Proofs.Service.Uses
import RepoAudit.Proofs.Store

/-!
# Runs of a job among others

A pipeline advances by its steps; between two of them everything else may happen that leaves the
job's own part of the world alone, the firing of its signal included.

* `World.Meanwhile` — what may happen to the world while a job stands still;
* `Pipeline.Advance` — a step of a pipeline, or a completion that the database rolls back;
* `World.Effect` — all that an advance can do to the world, and `Pipeline.Advance.effect`;
* `World.Effect.meanwhile` — **what one job does is something that may happen meanwhile to others**;
* `Pipeline.advance_recording_iff` — an advance on recording stages is the same advance, with its uses
  written down;
* `Config.Move`, `Config.FaultyMove` — the moves of a run on recording stages, without and with rolled
  back completions.
-/

namespace RepoAudit

open Relation

variable {σ : Type}

namespace World

variable {w w' : World σ} {id id' : String}

/-- The signal of a job is in the table. -/
def Listed (w : World σ) (id : String) : Prop := id ∈ w.signals.map Prod.fst

/-- What the store has been told about a job and has granted, in order. -/
def history (w : World σ) (id : String) : List JobStatus :=
  (w.notices.filter fun n => n.job = id && n.granted).map Notice.status

/-- What may happen to the world while a job stands still. -/
structure Meanwhile (id : String) (w w' : World σ) : Prop where
  record : w'.store.record? id = w.store.record? id
  rows : w'.store.rowsFor id = w.store.rowsFor id
  history : w'.history id = w.history id
  listed : w'.Listed id ↔ w.Listed id
  fired : w.signal id = .fired → w'.signal id = .fired

theorem Meanwhile.refl (w : World σ) (id : String) : w.Meanwhile id w :=
  ⟨rfl, rfl, rfl, Iff.rfl, fun hf => hf⟩

theorem Meanwhile.trans {w'' : World σ} (h : w.Meanwhile id w') (h' : w'.Meanwhile id w'') :
    w.Meanwhile id w'' where
  record := h'.record.trans h.record
  rows := h'.rows.trans h.rows
  history := h'.history.trans h.history
  listed := h'.listed.trans h.listed
  fired hf := h'.fired (h.fired hf)

/-! ### Signals -/

theorem lookup_map_value (l : List (String × Bool)) (f : String → Bool → Bool) :
    (l.map fun e => (e.1, f e.1 e.2)).lookup id = (l.lookup id).map (f id) := by
  induction l with
  | nil => rfl
  | cons e rest ih =>
    obtain ⟨k, x⟩ := e
    by_cases hk : id = k
    · subst hk
      simp
    · have hbeq : (id == k) = false := by simpa using hk
      simpa [List.lookup_cons, hbeq] using ih

/-- Entries that are kept by their key are found as before, and the others not at all. -/
theorem lookup_filter_key (l : List (String × Bool)) (p : String → Bool) (id : String) :
    (l.filter fun e => p e.1).lookup id = if p id then l.lookup id else none := by
  induction l with
  | nil => simp
  | cons e rest ih =>
    obtain ⟨k, x⟩ := e
    by_cases hk : id = k
    · subst hk
      by_cases hp : p id
      · rw [List.filter_cons_of_pos (by simpa using hp), List.lookup_cons_self,
          List.lookup_cons_self, if_pos hp]
      · rw [List.filter_cons_of_neg (by simpa using hp), ih, if_neg hp, if_neg hp]
    · have hbeq : (id == k) = false := beq_eq_false_iff_ne.mpr hk
      by_cases hp : p k
      · rw [List.filter_cons_of_pos (by simpa using hp), List.lookup_cons, List.lookup_cons, hbeq]
        exact ih
      · rw [List.filter_cons_of_neg (by simpa using hp), ih, List.lookup_cons, hbeq]

theorem lookup_dropSignal (w : World σ) (id id' : String) :
    (w.dropSignal id').signals.lookup id = if id ≠ id' then w.signals.lookup id else none := by
  have hkey := lookup_filter_key w.signals (fun k => decide (k ≠ id')) id
  rw [dropSignal]
  simpa using hkey

theorem signal_eq_fired_iff : w.signal id = .fired ↔ w.signals.lookup id = some true := by
  rw [signal]
  split <;> simp_all

theorem fire_eq (w : World σ) (id : String) :
    w.fire id = { w with signals := w.signals.map fun e => (e.1, e.2 || e.1 = id) } := by
  rw [fire]
  congr 2
  funext ⟨k, x⟩
  by_cases hk : k = id <;> simp [hk]

theorem lookup_fire (w : World σ) (id id' : String) :
    (w.fire id').signals.lookup id = (w.signals.lookup id).map fun x => x || id = id' := by
  rw [fire_eq]
  exact lookup_map_value w.signals fun k x => x || k = id'

theorem lookup_fire_other (w : World σ) {id id' : String} (h : id ≠ id') :
    (w.fire id').signals.lookup id = w.signals.lookup id := by
  rw [lookup_fire]
  simp [h]

theorem fireAll_eq (w : World σ) :
    w.fireAll = { w with signals := w.signals.map fun e => (e.1, e.2 || true) } := by
  rw [fireAll]
  congr 2
  funext ⟨k, x⟩
  simp

/-- Signals that fire are all that happens. -/
theorem meanwhile_of_signals {f : String → Bool → Bool} (hf : ∀ k, f k true = true)
    (hsignals : w'.signals = w.signals.map fun e => (e.1, f e.1 e.2))
    (hstore : w'.store = w.store) (hnotices : w'.notices = w.notices) : w.Meanwhile id w' where
  record := by rw [hstore]
  rows := by rw [hstore]
  history := by rw [history, hnotices, history]
  listed := by rw [Listed, hsignals, List.map_map, Listed]; rfl
  fired h := by
    rw [signal_eq_fired_iff] at h ⊢
    rw [hsignals, lookup_map_value, h, Option.map_some, hf]

theorem meanwhile_fire (w : World σ) (id id' : String) : w.Meanwhile id (w.fire id') := by
  rw [fire_eq]
  exact meanwhile_of_signals (f := fun k x => x || k = id') (by simp) rfl rfl rfl

theorem meanwhile_fireAll (w : World σ) (id : String) : w.Meanwhile id w.fireAll := by
  rw [fireAll_eq]
  exact meanwhile_of_signals (f := fun _ x => x || true) (by simp) rfl rfl rfl

theorem meanwhile_outside (w : World σ) (id : String) (limiter : Option Limiter) (outside : σ) :
    w.Meanwhile id { w with limiter := limiter, outside := outside } :=
  ⟨rfl, rfl, rfl, Iff.rfl, fun h => h⟩

/-! ### What a job does to the world -/

/-- All that an advance of a job can do to the world. -/
inductive Effect (id : String) (w : World σ) : World σ → Prop
  | nothing : Effect id w w
  | asked (status : JobStatus) (c : Store.Call) :
      c.job = id → Effect id w (w.tell id status (w.store.answer c)).2
  | refused (status : JobStatus) (e : JobError) : Effect id w (w.tell id status (.error e)).2
  | written (c : Store.Call) (store : Store) :
      c.job = id → w.store.answer c = .ok store → Effect id w { w with store := store }
  | worked {α : Type} (work : Setting σ → α × Setting σ) : Effect id w (w.during id work).2
  | touched (outside : σ) : Effect id w { w with outside := outside }
  | dropped : Effect id w (w.dropSignal id)

/-- A granted call of another job, with or without a notice of it. -/
theorem meanwhile_answer {c : Store.Call} {store : Store} (hid : id ≠ c.job)
    (h : w.store.answer c = .ok store) : w.Meanwhile id { w with store := store } where
  record := (Store.answer_other h hid).1
  rows := (Store.answer_other h hid).2
  history := rfl
  listed := Iff.rfl
  fired hf := hf

theorem history_append (w : World σ) (n : Notice) (id : String) :
    World.history { w with notices := w.notices ++ [n] } id =
      w.history id ++ if n.job = id ∧ n.granted then [n.status] else [] := by
  rw [history, history, List.filter_append, List.map_append]
  split <;> simp_all

theorem meanwhile_notice (w : World σ) (n : Notice) (h : ¬ (n.job = id ∧ n.granted)) :
    w.Meanwhile id { w with notices := w.notices ++ [n] } where
  record := rfl
  rows := rfl
  history := by rw [history_append, if_neg h, List.append_nil]
  listed := Iff.rfl
  fired hf := hf

theorem meanwhile_during {α : Type} (w : World σ) (id id' : String)
    (work : Setting σ → α × Setting σ) : w.Meanwhile id (w.during id' work).2 := by
  have hout := w.meanwhile_outside id (work ⟨w.signal id', w.limiter, w.outside⟩).2.limiter
    (work ⟨w.signal id', w.limiter, w.outside⟩).2.outside
  simp only [during]
  split
  · exact hout.trans (meanwhile_fire _ id id')
  · exact hout

theorem meanwhile_dropSignal (w : World σ) (h : id ≠ id') : w.Meanwhile id (w.dropSignal id') where
  record := rfl
  rows := rfl
  history := rfl
  listed := by simp [Listed, dropSignal, h]
  fired hf := by
    rw [signal_eq_fired_iff] at hf ⊢
    rw [lookup_dropSignal, if_pos h, hf]

/-- **What one job does is something that may happen meanwhile to others.** -/
theorem Effect.meanwhile (h : Effect id' w w') (hid : id ≠ id') : w.Meanwhile id w' := by
  cases h with
  | nothing => exact .refl w id
  | asked status c hjob =>
    subst hjob
    cases hans : w.store.answer c with
    | error e => exact meanwhile_notice w _ (by simp)
    | ok store =>
      exact (meanwhile_answer hid hans).trans (meanwhile_notice _ _ fun h => hid h.1.symm)
  | refused status e => exact meanwhile_notice w _ (by simp)
  | written c store hjob hans =>
    subst hjob
    exact meanwhile_answer hid hans
  | worked work => exact meanwhile_during w id id' work
  | touched outside => exact meanwhile_outside w id w.limiter outside
  | dropped => exact meanwhile_dropSignal w hid

/-- The signals of other jobs are left alone. -/
theorem Effect.lookup_other {w' : World σ} {id' : String} (h : w.Effect id' w') (hid : id ≠ id') :
    w'.signals.lookup id = w.signals.lookup id := by
  cases h with
  | asked status c hjob => cases w.store.answer c <;> rfl
  | worked work =>
    simp only [World.during]
    split
    · exact lookup_fire_other _ hid
    · rfl
  | dropped => rw [lookup_dropSignal, if_pos hid]
  | _ => rfl

end World

/-! ### Advances -/

/-- A pipeline advances: by its step, or, when its findings are to be written, by a completion that
is rolled back for whatever reason. -/
inductive Pipeline.Advance (s : Stages σ) (w : World σ) (p : Pipeline) :
    World σ → Option Pipeline → Prop
  | step (now : Moment) : Advance s w p (p.step s now w).1 (p.step s now w).2
  | rolledBack (e : JobError) (findings : List Finding) (stats : Option ReviewStats) :
      p.point = .complete findings stats →
      Advance s w p (w.tell p.job .completed (.error e)).2 (some (p.goTo (.giveUp defectText)))

namespace Pipeline

variable {s : Stages σ} {w w' : World σ} {p : Pipeline} {q : Option Pipeline}

theorem step_effect (s : Stages σ) (now : Moment) (w : World σ) (p : Pipeline) :
    w.Effect p.job (p.step s now w).1 := by
  obtain ⟨job, serial, path, point⟩ := p
  cases point with
  | load =>
    simp only [step]
    split <;> exact .nothing
  | markCloning address => exact .asked .cloning (.transition job .cloning) rfl
  | fetch address =>
    simp only [step]
    rcases (w.during job (s.fetch address)).1 with (_ | _) | _ <;> exact .worked (s.fetch address)
  | markScanning => exact .asked .scanning (.transition job .scanning) rfl
  | detect =>
    simp only [step]
    rcases (w.during job (s.detect path)).1 with (_ | _) | _ <;> exact .worked (s.detect path)
  | saveLanguages languages =>
    simp only [step]
    split
    · next store hans =>
      exact .written (.setLanguages job (languages.map Language.name)) store rfl hans
    · exact .nothing
  | scan languages => exact .worked (s.scan path languages)
  | markReviewing findings => exact .asked .reviewing (.transition job .reviewing) rfl
  | review findings =>
    simp only [step]
    split
    · exact .nothing
    · next review hreview =>
      rcases (w.during job (review path findings)).1 with _ | _ <;>
        exact .worked (review path findings)
  | complete findings stats => exact .asked .completed (.complete now job findings stats) rfl
  | report message => exact .asked .failed (.fail now job message) rfl
  | giveUp message => exact .asked .failed (.fail now job message) rfl
  | cleanUp =>
    simp only [step]
    split
    · exact .nothing
    · exact .touched (s.cleanUp path w.outside)
  | forget => exact .dropped
  | _ => exact .nothing

theorem Advance.effect (h : p.Advance s w w' q) : w.Effect p.job w' := by
  cases h with
  | step now => exact step_effect s now w p
  | rolledBack e findings stats hpoint => exact .refused .completed e

/-- A pipeline that goes on stays with its job and its serial number; it only leaves after taking its
signal out of the table. -/
theorem step_next {now : Moment} {p' : Pipeline} (h : p.step s now w = (w', some p')) :
    p'.job = p.job ∧ p'.serial = p.serial ∧ (p'.point = .leave → p.point = .forget) := by
  obtain ⟨job, serial, path, point⟩ := p
  cases point <;> simp only [step, unlessFired, unlessRefused, afterScan, goTo] at h <;>
    (repeat' split at h) <;>
    simp only [Prod.mk.injEq, Option.some.injEq, reduceCtorEq, and_false] at h <;>
    obtain ⟨-, rfl⟩ := h <;> simp

/-- A pipeline that comes to its end was about to leave. -/
theorem point_of_step_none {now : Moment} (h : (p.step s now w).2 = none) : p.point = .leave := by
  obtain ⟨job, serial, path, point⟩ := p
  cases point <;> simp only [step] at h <;> (repeat' split at h) <;> first | rfl | cases h

theorem Advance.job {p' : Pipeline} (h : p.Advance s w w' (some p')) : p'.job = p.job := by
  generalize hq : some p' = q at h
  cases h with
  | step now => exact (step_next (Prod.ext rfl hq.symm)).1
  | rolledBack e findings stats hpoint =>
    cases hq
    rfl

/-- A step on recording stages that comes to a world and a list of uses. -/
theorem step_recording_eq_iff {now : Moment} {log log' : List Use} :
    p.step s.recording now (w.recorded log) = (w'.recorded log', q) ↔
      p.step s now w = (w', q) ∧ log' = log ++ p.uses s w := by
  rw [step_recording, Prod.mk.injEq, World.recorded_inj, Prod.ext_iff]
  exact ⟨fun ⟨⟨hworld, hlog⟩, hq⟩ => ⟨⟨hworld, hq⟩, hlog.symm⟩,
    fun ⟨⟨hworld, hq⟩, hlog⟩ => ⟨⟨hworld, hlog.symm⟩, hq⟩⟩

/-- An advance on recording stages is the same advance, and what it writes down are the uses of the
pipeline at its point. A completion that is rolled back uses nothing. -/
theorem advance_recording_iff {log log' : List Use} :
    p.Advance s.recording (w.recorded log) (w'.recorded log') q ↔
      p.Advance s w w' q ∧ log' = log ++ p.uses s w := by
  constructor
  · intro h
    generalize hworld : w'.recorded log' = r at h
    cases h with
    | step now =>
      obtain ⟨hstep, hlog⟩ := step_recording_eq_iff.mp
        (Prod.ext hworld.symm rfl : p.step s.recording now (w.recorded log) = (w'.recorded log', _))
      obtain ⟨rfl, hq⟩ := Prod.ext_iff.mp hstep
      exact ⟨hq ▸ .step now, hlog⟩
    | rolledBack e findings stats hpoint =>
      rw [World.tell_recorded, World.recorded_inj] at hworld
      obtain ⟨rfl, rfl⟩ := hworld
      refine ⟨.rolledBack e findings stats hpoint, ?_⟩
      rw [uses, hpoint, List.append_nil]
  · rintro ⟨h, rfl⟩
    cases h with
    | step now =>
      have hstep := Advance.step (s := s.recording) (w := w.recorded log) (p := p) now
      rwa [step_recording] at hstep
    | rolledBack e findings stats hpoint =>
      have huses : p.uses s w = [] := by rw [uses, hpoint]
      have hback := Advance.rolledBack (s := s.recording) (w := w.recorded log) e findings stats hpoint
      rw [World.tell_recorded] at hback
      rwa [huses, List.append_nil]

end Pipeline

/-! ### Runs -/

/-- A job at one moment of its run: the world, its pipeline while it has one, and what its stages have
written down of their uses up to now. -/
structure Config (σ : Type) where
  world : World σ
  pipeline : Option Pipeline
  log : List Use := []

namespace Config

/-- A move in the run of a job: a step of its pipeline on stages that write down their uses, or what
happens meanwhile. -/
inductive Move (s : Stages σ) (id : String) : Config σ → Config σ → Prop
  | step (now : Moment) {w w' : World σ} {p : Pipeline} {q : Option Pipeline} {log log' : List Use} :
      p.step s.recording now (w.recorded log) = (w'.recorded log', q) →
        Move s id ⟨w, some p, log⟩ ⟨w', q, log'⟩
  | meanwhile {w w' : World σ} (q : Option Pipeline) (log : List Use) :
      w.Meanwhile id w' → Move s id ⟨w, q, log⟩ ⟨w', q, log⟩

/-- A move in a run in which completions may also be rolled back. -/
inductive FaultyMove (s : Stages σ) (id : String) : Config σ → Config σ → Prop
  | advance {w w' : World σ} {p : Pipeline} {q : Option Pipeline} {log log' : List Use} :
      p.Advance s.recording (w.recorded log) (w'.recorded log') q →
        FaultyMove s id ⟨w, some p, log⟩ ⟨w', q, log'⟩
  | meanwhile {w w' : World σ} (q : Option Pipeline) (log : List Use) :
      w.Meanwhile id w' → FaultyMove s id ⟨w, q, log⟩ ⟨w', q, log⟩

variable {s : Stages σ} {id : String} {c c' : Config σ}

theorem Move.faulty (h : Move s id c c') : FaultyMove s id c c' := by
  cases h with
  | step now hstep =>
    refine .advance (Pipeline.advance_recording_iff.mpr ?_)
    obtain ⟨hstep, hlog⟩ := Pipeline.step_recording_eq_iff.mp hstep
    obtain ⟨rfl, rfl⟩ := Prod.ext_iff.mp hstep
    exact ⟨.step now, hlog⟩
  | meanwhile q log h => exact .meanwhile q log h

/-- The step of a pipeline is a move, which adds its uses to those so far. -/
theorem Move.of_step (s : Stages σ) (id : String) (now : Moment) (w : World σ) (p : Pipeline)
    (log : List Use) :
    Move s id ⟨w, some p, log⟩ ⟨(p.step s now w).1, (p.step s now w).2, log ++ p.uses s w⟩ :=
  .step now (p.step_recording s now w log)

/-- A job some steps of its pipeline later, if nothing else happens. -/
def after (s : Stages σ) (now : Moment) : Nat → Config σ → Config σ
  | 0, c => c
  | _ + 1, ⟨w, none, log⟩ => ⟨w, none, log⟩
  | n + 1, ⟨w, some p, log⟩ =>
    after s now n ⟨(p.step s now w).1, (p.step s now w).2, log ++ p.uses s w⟩

theorem run_after (s : Stages σ) (id : String) (now : Moment) (n : Nat) (c : Config σ) :
    ReflTransGen (FaultyMove s id) c (c.after s now n) := by
  induction n generalizing c with
  | zero => exact .refl
  | succ n ih =>
    obtain ⟨w, _ | p, log⟩ := c
    · exact .refl
    · exact .head (Move.of_step s id now w p log).faulty (ih _)

/-- Every pipeline can be run to its end, and what its steps preserve holds all the way. -/
theorem exists_run_to_end {Q : Config σ → Prop} (s : Stages σ) (id : String) (now : Moment)
    (hQ : ∀ w p log, Q ⟨w, some p, log⟩ →
      Q ⟨(p.step s now w).1, (p.step s now w).2, log ++ p.uses s w⟩)
    (w : World σ) (p : Pipeline) (log : List Use) (h : Q ⟨w, some p, log⟩) :
    ∃ w' log', Q ⟨w', none, log'⟩ ∧
      ReflTransGen (fun c c' => Q c ∧ Move s id c c') ⟨w, some p, log⟩ ⟨w', none, log'⟩ := by
  -- the rank falls with every step
  induction hrank : p.point.rank using Nat.strongRecOn generalizing w p log with
  | ind n ih =>
    have hnext := hQ w p log h
    have hstep := Move.of_step s id now w p log
    cases hp : (p.step s now w).2 with
    | none =>
      rw [hp] at hnext hstep
      exact ⟨_, _, hnext, .single ⟨h, hstep⟩⟩
    | some p' =>
      rw [hp] at hnext hstep
      have hlt : p'.point.rank < n := hrank ▸ Pipeline.rank_step (Prod.ext rfl hp)
      obtain ⟨w', log', hend, hrun⟩ := ih _ hlt _ _ _ hnext rfl
      exact ⟨w', log', hend, .head ⟨h, hstep⟩ hrun⟩

end Config

end RepoAudit
