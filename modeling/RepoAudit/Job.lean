import RepoAudit.Complaint
import RepoAudit.Moment
import RepoAudit.Review.Basic

/-!
# Jobs

One scan of one repository, from its request to its end.

* `JobStatus` — the stages of a job. A job moves forward only, may fail at any stage but the last
  two, and stays where it has ended.
* `Job` — a job with everything known about it.
* `Job.create?` — a job that has just been requested.
* `Job.toJson`, `Job.summary` — a job for programs and for people.
-/

namespace RepoAudit

/-- The stages of a job. -/
inductive JobStatus where
  | pending
  | cloning
  | scanning
  | reviewing
  | completed
  | failed
  deriving Repr, DecidableEq, Inhabited

namespace JobStatus

/-- The written name. -/
def name : JobStatus → String
  | .pending => "pending"
  | .cloning => "cloning"
  | .scanning => "scanning"
  | .reviewing => "reviewing"
  | .completed => "completed"
  | .failed => "failed"

/-- The stages in order. -/
def all : List JobStatus := [.pending, .cloning, .scanning, .reviewing, .completed, .failed]

/-- The stage of a written name. -/
def ofName? (s : String) : Option JobStatus := all.find? fun v => v.name = s

/-- The place of a stage in the order. -/
def place : JobStatus → Nat
  | .pending => 0
  | .cloning => 1
  | .scanning => 2
  | .reviewing => 3
  | .completed => 4
  | .failed => 5

/-- Whether a job has ended. -/
def isTerminal : JobStatus → Bool
  | .completed | .failed => true
  | _ => false

/-- Whether a job may move from one stage to another: it has not ended, and the other is a failure or
lies ahead. -/
def canMoveTo (a b : JobStatus) : Bool := !a.isTerminal && (b == .failed || a.place < b.place)

end JobStatus

/-- A scan of a repository. -/
structure Job where
  id : String
  address : String
  status : JobStatus := .pending
  languages : List String := []
  findings : List Finding := []
  stats : Option ReviewStats := none
  error : Option String := none
  created : Option Moment := none
  completed : Option Moment := none
  expires : Option Moment := none
  deriving Repr

namespace Job

/-- How many days a job is kept when nothing else is said. -/
def defaultDays : Int := 7

/-- A job requested now and kept for some days; none when the calendar ends before. -/
def create? (id address : String) (days : Int) (now : Moment) : Option Job :=
  (now.addDays? days).map fun expires =>
    { id := id, address := address, created := some now, expires := some expires }

/-- The seconds that a job is kept. -/
def retention? (j : Job) : Option Int :=
  match j.created, j.expires with
  | some a, some b => some (a.secondsUntil b)
  | _, _ => none

/-- A moment as JSON. -/
def jsonMoment (m : Option Moment) : Json.Value := Finding.jsonText (m.map Moment.render)

/-- A job as JSON. -/
def toJson (j : Job) : Json.Value := .object [
  ("id", .string j.id), ("repo_url", .string j.address), ("status", .string j.status.name),
  ("languages", .array (j.languages.map .string)), ("findings", .array (j.findings.map Finding.toJson)),
  ("review_stats", j.stats.elim .null ReviewStats.toJson), ("error", Finding.jsonText j.error),
  ("created_at", jsonMoment j.created), ("completed_at", jsonMoment j.completed),
  ("expires_at", jsonMoment j.expires)]

/-! ### Summaries -/

/-- A text with spaces after it up to a width. -/
def widened (width : Nat) (s : String) : String :=
  s ++ String.ofList (List.replicate (width - s.length) ' ')

/-- The level of a finding in capitals. -/
def capitals (s : Severity) : String := String.ofList (s.name.toList.map Char.toUpper)

/-- The lines about a finding. -/
def findingLines (f : Finding) : List String :=
  let line := if f.lineOrZero = 0 then "" else ":" ++ Decimal.renderInt f.lineOrZero
  ("  [" ++ widened 8 (capitals f.severity) ++ "] " ++ widened 13 f.tool ++ " " ++ f.filePath ++
    line ++ " - " ++ f.description) ::
    (match Finding.nonEmpty? f.remediation with
      | some r => ["             remediation: " ++ r]
      | none => [])

/-- The lines of a summary; the findings are listed when the job is completed. -/
def summaryLines (j : Job) : List String :=
  ["Scan " ++ j.id ++ ": " ++ j.status.name, "Repository: " ++ j.address] ++
    (if j.languages.isEmpty then [] else ["Languages:  " ++ String.intercalate ", " j.languages]) ++
    (match Finding.nonEmpty? j.error with
      | some e => ["Error:      " ++ e]
      | none => []) ++
    (if j.status = .completed then
      ("Findings:   " ++ toString j.findings.length) :: j.findings.flatMap findingLines
    else [])

/-- A job in a few lines. -/
def summary (j : Job) : String := String.join (j.summaryLines.map (· ++ "\n"))

end Job

/-- Why an operation on jobs is refused. -/
inductive JobError where
  | notFound (id : String)
  | transition (id : String) (current target : JobStatus)
  | duplicate
  | lacksExpiry
  | numberTooLarge
  deriving Repr, DecidableEq

namespace JobError

/-- That there is no job of an identifier, in words. -/
def notFoundText (id : String) : String := "scan job not found: " ++ id

/-- That a job cannot move from one stage to another, in words. -/
def transitionText (id current target : String) : String :=
  "job " ++ id ++ ": cannot transition from " ++ current ++ " to " ++ target

/-- The reason in words. -/
def message : JobError → String
  | .notFound id => notFoundText id
  | .transition id a b => transitionText id a.name b.name
  | .duplicate => "an identifier is used twice"
  | .lacksExpiry => "a job needs an end of its retention"
  | .numberTooLarge => "a number does not fit into 64 bits"

/-- The code under which a reason is reported. -/
def code : JobError → String
  | .notFound _ => "JOB_NOT_FOUND"
  | .transition .. => "INVALID_TRANSITION"
  | _ => Complaint.internalCode

end JobError

end RepoAudit
