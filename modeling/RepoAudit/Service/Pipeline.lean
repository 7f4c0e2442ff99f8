import RepoAudit.Identifier
import RepoAudit.Service.Stages
import RepoAudit.Store

/-!
# The pipeline of a job

A job is worked on in atomic steps: calls of the store, stages, looks at the cancel signal, the
cleaning up and the removal of the signal from the table.

* `Point` — where a pipeline stands; `Point.rank` falls with every step.
* `World` — the store, the table of signals, and everything else that pipelines share.
* `Pipeline.step` — one atomic step.
* `Pipeline.finish` — all steps that are left.
-/

namespace RepoAudit

/-- Where a pipeline stands: what it does next, with what it knows by then. -/
inductive Point where
  | load
  | checkLoaded (address : String)
  | markCloning (address : String)
  | fetch (address : String)
  | checkUnfetched (message : String)
  | checkFetched
  | markScanning
  | detect
  | saveLanguages (languages : List Language)
  | scan (languages : List Language)
  | checkScanned (results : List ToolResult)
  | markReviewing (findings : List Finding)
  | review (findings : List Finding)
  | checkReviewed (findings : List Finding) (stats : ReviewStats)
  | complete (findings : List Finding) (stats : Option ReviewStats)
  | report (message : String)
  | giveUp (message : String)
  | cleanUp
  | forget
  | leave
  deriving Repr

/-- How many steps are left at most. -/
def Point.rank : Point → Nat
  | .load => 19
  | .checkLoaded _ => 18
  | .markCloning _ => 17
  | .fetch _ => 16
  | .checkUnfetched _ => 15
  | .checkFetched => 15
  | .markScanning => 14
  | .detect => 13
  | .saveLanguages _ => 12
  | .scan _ => 11
  | .checkScanned _ => 10
  | .markReviewing _ => 9
  | .review _ => 8
  | .checkReviewed .. => 7
  | .complete .. => 6
  | .report _ => 5
  | .giveUp _ => 4
  | .cleanUp => 3
  | .forget => 2
  | .leave => 1

/-- A job being worked on: its serial number, the directory of its repository once there is one, and
where it stands. -/
structure Pipeline where
  job : String
  serial : Nat
  path : String := ""
  point : Point := .load
  deriving Repr

/-- A request to the store that names a stage, and whether it was granted. -/
structure Notice where
  job : String
  status : JobStatus
  granted : Bool
  deriving Repr, DecidableEq

/-- What pipelines share: the store, the signals of running jobs with whether they have fired, the
limiter, everything outside, and what the store has been told. -/
structure World (σ : Type) where
  store : Store := {}
  signals : List (String × Bool) := []
  limiter : Option Limiter := none
  outside : σ
  notices : List Notice := []

namespace World

variable {σ : Type}

/-- The signal of a job. -/
def signal (w : World σ) (id : String) : Signal :=
  if w.signals.lookup id = some true then .fired else .quiet

/-- Fires the signal of a job, if it is in the table. -/
def fire (w : World σ) (id : String) : World σ :=
  { w with signals := w.signals.map fun (k, x) => if k = id then (k, true) else (k, x) }

/-- Fires every signal in the table. -/
def fireAll (w : World σ) : World σ :=
  { w with signals := w.signals.map fun (k, _) => (k, true) }

/-- Takes the signal of a job out of the table. -/
def dropSignal (w : World σ) (id : String) : World σ :=
  { w with signals := w.signals.filter fun (k, _) => k ≠ id }

/-- Does the work of a stage for a job; a signal that fires meanwhile has fired afterwards. -/
def during {α : Type} (w : World σ) (id : String) (work : Setting σ → α × Setting σ) : α × World σ :=
  let (x, st) := work ⟨w.signal id, w.limiter, w.outside⟩
  let w := { w with limiter := st.limiter, outside := st.outside }
  (x, if st.signal.isFired then w.fire id else w)

/-- Asks the store to move a job to a stage; the answer says whether it did. -/
def tell (w : World σ) (id : String) (status : JobStatus) (reply : Except JobError Store) :
    Except JobError Unit × World σ :=
  match reply with
  | .ok s => (.ok (), { w with store := s, notices := w.notices ++ [⟨id, status, true⟩] })
  | .error e => (.error e, { w with notices := w.notices ++ [⟨id, status, false⟩] })

end World

namespace Pipeline

variable {σ : Type}

/-- What is said of a job whose signal has fired. -/
def cancelledText : String := "Scan cancelled"

/-- What is said of a job that a defect has ended. -/
def defectText : String := "Scan failed due to an internal error"

/-- The identifiers of the findings of a job. -/
def findingId (p : Pipeline) (n : Nat) : String := Identifier.ofPair p.serial (n + 1)

/-- The pipeline at another point. -/
def goTo (p : Pipeline) (point : Point) : Pipeline := { p with point := point }

/-- The point after a look at the signal. -/
def unlessFired (w : World σ) (p : Pipeline) (next : Point) : Pipeline :=
  if (w.signal p.job).isFired then p.goTo (.giveUp cancelledText) else p.goTo next

/-- The point after a request to the store; a refusal counts as a defect. -/
def unlessRefused (p : Pipeline) (r : Except JobError Unit) (next : Point) : Pipeline :=
  match r with
  | .ok () => p.goTo next
  | .error _ => p.goTo (.giveUp defectText)

/-- What follows once the tools have run: a review when there are findings and somebody to review
them. -/
def afterScan (s : Stages σ) (findings : List Finding) : Point :=
  if findings.isEmpty || s.review.isNone then .complete findings none else .markReviewing findings

/-- One atomic step of a job; none when nothing is left to do. -/
def step (s : Stages σ) (now : Moment) (w : World σ) (p : Pipeline) : World σ × Option Pipeline :=
  match p.point with
  | .load =>
    match w.store.get p.job with
    | .ok j => (w, some (p.goTo (.checkLoaded j.address)))
    | .error _ => (w, some (p.goTo (.giveUp defectText)))
  | .checkLoaded address => (w, some (unlessFired w p (.markCloning address)))
  | .markCloning address =>
    let (r, w) := w.tell p.job .cloning (w.store.transition p.job .cloning)
    (w, some (p.unlessRefused r (.fetch address)))
  | .fetch address =>
    let (r, w) := w.during p.job (s.fetch address)
    match r with
    | .ok path => (w, some { p with path := path, point := .checkFetched })
    | .error (.fault e) => (w, some (p.goTo (.checkUnfetched ("Clone failed: " ++ e.message))))
    | .error (.crashed _) => (w, some (p.goTo (.giveUp defectText)))
  | .checkUnfetched message => (w, some (unlessFired w p (.report message)))
  | .checkFetched => (w, some (unlessFired w p .markScanning))
  | .markScanning =>
    let (r, w) := w.tell p.job .scanning (w.store.transition p.job .scanning)
    (w, some (p.unlessRefused r .detect))
  | .detect =>
    let (r, w) := w.during p.job (s.detect p.path)
    match r with
    | .ok languages => (w, some (p.goTo (.saveLanguages languages)))
    | .error (.system e) =>
      (w, some (p.goTo (.report ("Language detection failed: " ++ e.describe))))
    | .error (.crashed _) => (w, some (p.goTo (.giveUp defectText)))
  | .saveLanguages languages =>
    match w.store.setLanguages p.job (languages.map Language.name) with
    | .ok store => ({ w with store := store }, some (p.goTo (.scan languages)))
    | .error _ => (w, some (p.goTo (.giveUp defectText)))
  | .scan languages =>
    let (results, w) := w.during p.job (s.scan p.path languages)
    (w, some (p.goTo (.checkScanned results)))
  | .checkScanned results =>
    (w, some (unlessFired w p (afterScan s (Finding.aggregate p.findingId results))))
  | .markReviewing findings =>
    let (r, w) := w.tell p.job .reviewing (w.store.transition p.job .reviewing)
    (w, some (p.unlessRefused r (.review findings)))
  | .review findings =>
    match s.review with
    | none => (w, some (p.goTo (.complete findings none)))
    | some review =>
      let (r, w) := w.during p.job (review p.path findings)
      match r with
      | .ok (findings, stats) => (w, some (p.goTo (.checkReviewed findings stats)))
      | .error _ => (w, some (p.goTo (.giveUp defectText)))
  | .checkReviewed findings stats => (w, some (unlessFired w p (.complete findings (some stats))))
  | .complete findings stats =>
    let (r, w) := w.tell p.job .completed (w.store.complete now p.job findings stats)
    (w, some (p.unlessRefused r .cleanUp))
  | .report message =>
    let (r, w) := w.tell p.job .failed (w.store.fail now p.job message)
    (w, some (p.unlessRefused r .cleanUp))
  | .giveUp message =>
    let (_, w) := w.tell p.job .failed (w.store.fail now p.job message)
    (w, some (p.goTo .cleanUp))
  | .cleanUp =>
    let w := if p.path = "" then w else { w with outside := s.cleanUp p.path w.outside }
    (w, some (p.goTo .forget))
  | .forget => (w.dropSignal p.job, some (p.goTo .leave))
  | .leave => (w, none)

/-- Up to `n` steps. -/
def steps (s : Stages σ) (now : Moment) : Nat → World σ → Pipeline → World σ × Option Pipeline
  | 0, w, p => (w, some p)
  | n + 1, w, p =>
    match step s now w p with
    | (w, none) => (w, none)
    | (w, some p) => steps s now n w p

/-- The world after all steps that are left. -/
def finish (s : Stages σ) (now : Moment) (w : World σ) (p : Pipeline) : World σ :=
  (steps s now p.point.rank w p).1

/-- Each step leads to a point of lower rank. -/
theorem rank_step {s : Stages σ} {now : Moment} {w w' : World σ} {p p' : Pipeline}
    (h : step s now w p = (w', some p')) : p'.point.rank < p.point.rank := by
  obtain ⟨job, serial, path, point⟩ := p
  cases point <;> simp only [step, unlessFired, unlessRefused, afterScan, goTo] at h <;>
    (repeat' split at h) <;> simp only [Prod.mk.injEq, Option.some.injEq, reduceCtorEq, and_false] at h <;>
    obtain ⟨-, rfl⟩ := h <;> simp [Point.rank]

end Pipeline

end RepoAudit
