import RepoAudit.Service.Pipeline

/-!
# What a pipeline asks of the world outside

A pipeline reaches the world outside through its stages only. The stages can be made to write down
every use of them; then a step does what it did before, and what it writes down is known from the
point at which the pipeline stands.

* `Use` — one use of a stage, with what it was given and what it answered;
* `Stages.recording` — the stages with a list of their uses beside the state of the world outside;
* `Pipeline.uses` — the uses of one step;
* `Pipeline.step_recording` — **a step on recording stages is the same step, and what it writes down
  are its uses**.
-/

namespace RepoAudit

/-- One use of a stage. -/
inductive Use where
  | fetched (answer : Except CheckoutStop String)
  | detected (path : String) (answer : Except DetectionStop (List Language))
  | scanned (path : String) (languages : List Language) (results : List ToolResult)
  | reviewed (path : String) (findings : List Finding)
  | cleaned (path : String)

/-- A use that works in a directory. -/
def Use.WorksIn (path : String) : Use → Prop
  | .detected p _ | .scanned p _ _ | .reviewed p _ => p = path
  | .fetched _ | .cleaned _ => False

variable {σ α : Type}

/-- Work that writes down its use. -/
def Setting.noting (note : α → Use) (work : Setting σ → α × Setting σ)
    (st : Setting (σ × List Use)) : α × Setting (σ × List Use) :=
  let (x, st') := work ⟨st.signal, st.limiter, st.outside.1⟩
  (x, ⟨st'.signal, st'.limiter, (st'.outside, st.outside.2 ++ [note x])⟩)

/-- The stages with their uses written down. -/
def Stages.recording (s : Stages σ) : Stages (σ × List Use) where
  fetch address := Setting.noting .fetched (s.fetch address)
  detect path := Setting.noting (.detected path) (s.detect path)
  scan path languages := Setting.noting (.scanned path languages) (s.scan path languages)
  review := s.review.map fun review path findings =>
    Setting.noting (fun _ => .reviewed path findings) (review path findings)
  cleanUp path outside := (s.cleanUp path outside.1, outside.2 ++ [.cleaned path])

/-- A world with a list of uses beside what lies outside. -/
def World.recorded (w : World σ) (log : List Use) : World (σ × List Use) :=
  ⟨w.store, w.signals, w.limiter, (w.outside, log), w.notices⟩

/-- The uses of one step. -/
def Pipeline.uses (s : Stages σ) (w : World σ) (p : Pipeline) : List Use :=
  match p.point with
  | .fetch address => [.fetched (w.during p.job (s.fetch address)).1]
  | .detect => [.detected p.path (w.during p.job (s.detect p.path)).1]
  | .scan languages => [.scanned p.path languages (w.during p.job (s.scan p.path languages)).1]
  | .review findings => if s.review.isNone then [] else [.reviewed p.path findings]
  | .cleanUp => if p.path = "" then [] else [.cleaned p.path]
  | _ => []

/-! ### Recording changes nothing -/

/-- A recorded world is a world and a list of uses. -/
theorem World.recorded_inj {w w' : World σ} {log log' : List Use} :
    w.recorded log = w'.recorded log' ↔ w = w' ∧ log = log' := by
  constructor
  · intro h
    obtain ⟨store, signals, limiter, outside, notices⟩ := w
    obtain ⟨store', signals', limiter', outside', notices'⟩ := w'
    simp only [recorded, World.mk.injEq, Prod.mk.injEq] at h
    obtain ⟨rfl, rfl, rfl, ⟨rfl, rfl⟩, rfl⟩ := h
    exact ⟨rfl, rfl⟩
  · rintro ⟨rfl, rfl⟩
    rfl

section Recorded

variable (w : World σ) (log : List Use)

@[simp] theorem World.recorded_store : (w.recorded log).store = w.store := rfl

@[simp] theorem World.recorded_dropSignal (id : String) :
    (w.recorded log).dropSignal id = (w.dropSignal id).recorded log := rfl

@[simp] theorem World.tell_recorded (id : String) (status : JobStatus)
    (reply : Except JobError Store) :
    (w.recorded log).tell id status reply =
      ((w.tell id status reply).1, (w.tell id status reply).2.recorded log) := by
  cases reply <;> rfl

@[simp] theorem World.during_recorded (id : String) (note : α → Use)
    (work : Setting σ → α × Setting σ) :
    (w.recorded log).during id (Setting.noting note work) =
      ((w.during id work).1, (w.during id work).2.recorded (log ++ [note (w.during id work).1])) := by
  simp only [World.during, Setting.noting]
  show (_, if (work ⟨w.signal id, w.limiter, w.outside⟩).2.signal.isFired then _ else _) = _
  split <;> rfl

theorem Pipeline.unlessFired_recorded (p : Pipeline) (next : Point) :
    unlessFired (w.recorded log) p next = unlessFired w p next := rfl

theorem Pipeline.afterScan_recording (s : Stages σ) (findings : List Finding) :
    afterScan s.recording findings = afterScan s findings := by
  cases h : s.review <;> simp [afterScan, Stages.recording, h]

end Recorded

/-- **A step on recording stages is the same step, and what it writes down are its uses.** -/
theorem Pipeline.step_recording (s : Stages σ) (now : Moment) (w : World σ) (log : List Use)
    (p : Pipeline) :
    p.step s.recording now (w.recorded log) =
      ((p.step s now w).1.recorded (log ++ p.uses s w), (p.step s now w).2) := by
  obtain ⟨job, serial, path, point⟩ := p
  cases point with
  | load =>
    simp only [step, uses, World.recorded_store, List.append_nil]
    cases w.store.get job <;> rfl
  | fetch address =>
    have hfetch : s.recording.fetch address = Setting.noting .fetched (s.fetch address) := rfl
    simp only [step, uses, hfetch, World.during_recorded]
    rcases (w.during job (s.fetch address)).1 with (_ | _) | _ <;> rfl
  | detect =>
    have hdetect : s.recording.detect path = Setting.noting (.detected path) (s.detect path) := rfl
    simp only [step, uses, hdetect, World.during_recorded]
    rcases (w.during job (s.detect path)).1 with (_ | _) | _ <;> rfl
  | saveLanguages languages =>
    simp only [step, uses, World.recorded_store, List.append_nil]
    cases w.store.setLanguages job (languages.map Language.name) <;> rfl
  | scan languages =>
    have hscan : s.recording.scan path languages =
      Setting.noting (.scanned path languages) (s.scan path languages) := rfl
    simp only [step, uses, hscan, World.during_recorded]
  | checkScanned results =>
    simp only [step, uses, unlessFired_recorded, afterScan_recording, List.append_nil]
  | review findings =>
    cases hreview : s.review with
    | none =>
      have hnone : s.recording.review = none := by rw [Stages.recording, hreview, Option.map_none]
      simp only [step, uses, hreview, hnone, Option.isNone_none, if_true, List.append_nil]
    | some review =>
      have hsome : s.recording.review = some fun path findings =>
          Setting.noting (fun _ => .reviewed path findings) (review path findings) := by
        rw [Stages.recording, hreview, Option.map_some]
      simp only [step, uses, hreview, hsome, World.during_recorded]
      rcases (w.during job (review path findings)).1 with _ | _ <;> rfl
  | cleanUp =>
    simp only [step, uses]
    by_cases hpath : path = ""
    · simp only [hpath, if_true, List.append_nil]
    · simp only [hpath, if_false]
      rfl
  | _ =>
    simp only [step, uses, World.recorded_store, World.tell_recorded, World.recorded_dropSignal,
      unlessFired_recorded, List.append_nil]

end RepoAudit
