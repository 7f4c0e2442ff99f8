import RepoAudit.Service.Pipeline

/-!
# The scan service

Scans are requested, watched, cancelled and waited for by the identifiers of their jobs.

* `Service` — the stages, the shared world, the pipelines handed to the pool, and whether the pool
  still takes any.
* `Service.start`, `Service.get`, `Service.cancel`, `Service.wait`, `Service.shutDown` — the
  operations.
* `Service.configuration` — what callers may know about the service.
-/

namespace RepoAudit

/-- The counters of a limiter as an object. -/
def Limiter.toJson (l : Limiter) : Json.Value := .object [
  ("max_concurrent", .int l.capacity), ("active", .int l.active), ("waiting", .int l.waiting),
  ("processed", .int l.processed)]

/-- A length of time as a number. -/
def Duration.toJson : Duration → Json.Value
  | .whole n => .int n
  | .decimal d => .real (.finite d)

/-- What callers may know about a service besides its limiter. -/
structure ServiceFacts where
  hasToken : Bool := false
  reviews : Bool := false
  maxFiles : Int := 0
  toolLimit : Duration := .whole 300
  deriving Repr

/-- A scan service. -/
structure Service (σ : Type) where
  stages : Stages σ
  world : World σ
  pipelines : List Pipeline := []
  closed : Bool := false
  issued : Nat := 0
  retentionDays : Int := Job.defaultDays
  facts : ServiceFacts := {}

/-- Why a scan is not started. -/
inductive StartError where
  | address (e : AddressError)
  | calendar
  | job (e : JobError)
  | closed
  deriving Repr, DecidableEq

namespace Service

variable {σ : Type}

/-- The identifier of the next job. -/
def nextId (s : Service σ) : String := Identifier.ofPair s.issued 0

/-- Starts a scan. The job is stored before the pool is asked, so that a closed pool leaves a job
behind that nobody works on. -/
def start (s : Service σ) (now : Moment) (address : String) : Except StartError Job × Service σ :=
  match Address.check address with
  | .error e => (.error (.address e), s)
  | .ok _ =>
    match Job.create? s.nextId (Address.canonical address) s.retentionDays now with
    | none => (.error .calendar, s)
    | some job =>
      match s.world.tell job.id job.status (s.world.store.create now job) with
      | (.error e, w) => (.error (.job e), { s with world := w })
      | (.ok (), w) =>
        let w := { w with signals := w.signals ++ [(job.id, false)] }
        let s := { s with world := w, issued := s.issued + 1 }
        if s.closed then (.error .closed, s)
        else (.ok job, { s with pipelines := s.pipelines ++ [⟨job.id, s.issued, "", .load⟩] })

/-- A job. -/
def get (s : Service σ) (id : String) : Except JobError Job := s.world.store.get id

/-- Asks for a job to be cancelled; the answer says whether it is being worked on. -/
def cancel (s : Service σ) (id : String) : Except JobError Bool × Service σ :=
  if s.world.signals.any fun (k, _) => k = id then
    (.ok true, { s with world := s.world.fire id })
  else ((s.get id).map fun _ => false, s)

/-- The service after everything left of a job has been done. -/
def finish (s : Service σ) (now : Moment) (id : String) : Service σ :=
  match s.pipelines.find? fun p => p.job = id with
  | none => s
  | some p =>
    { s with
      world := p.finish s.stages now s.world
      pipelines := s.pipelines.filter fun p => p.job ≠ id }

/-- Waits for the end of a job. -/
def wait (s : Service σ) (now : Moment) (id : String) : Except JobError Job × Service σ :=
  let s := s.finish now id
  (s.get id, s)

/-- The service after everything left of all jobs has been done. -/
def finishAll (s : Service σ) (now : Moment) : Service σ :=
  s.pipelines.foldl (fun s p => s.finish now p.job) s

/-- Closes the pool: either all jobs are waited for, or all of them are asked to stop. -/
def shutDown (s : Service σ) (now : Moment) (waiting : Bool) : Service σ :=
  if waiting then { s.finishAll now with closed := true }
  else { s with world := s.world.fireAll, closed := true }

/-- What callers may know about the service. -/
def configuration (s : Service σ) : Json.Value :=
  .object ([("private_repo_enabled", .bool s.facts.hasToken),
    ("ai_review_enabled", .bool s.facts.reviews), ("max_files_to_review", .int s.facts.maxFiles),
    ("tool_timeout_seconds", s.facts.toolLimit.toJson)] ++
    (s.world.limiter.elim [] fun l => [("queue", l.toJson)]))

end Service

namespace Workshop

variable {σ : Type}

/-- What callers may know about a service made of these parts. -/
def facts (w : Workshop σ) : ServiceFacts where
  hasToken := w.checkout.hasToken
  reviews := w.activeReviewer?.isSome
  maxFiles := w.reviewer.elim 0 fun r => r.limits.maxFiles
  toolLimit := w.runner.limit

/-- The service made of these parts. -/
def service (w : Workshop σ) (limiter : Option Limiter) (days : Int) (outside : σ) : Service σ where
  stages := w.stages
  world := { limiter := limiter, outside := outside }
  retentionDays := days
  facts := w.facts

end Workshop

end RepoAudit
