import RepoAudit.Review.Choice
import RepoAudit.Review.Merge
import RepoAudit.Review.Model
import RepoAudit.Review.Prompt
import RepoAudit.Review.Source

/-!
# Review by a model

The most severe findings are shown to a model together with the code they are about, and its advice
is attached to them. Whatever goes wrong, the findings come back as they were.

* `ReviewStats` — the counts of a review, and why it was skipped.
* `Reviewer` — the model, if there is one, and the limits.
* `Reviewer.review` — a review; it fails only when the system refuses to look at a path at all.
-/

namespace RepoAudit

/-- Why the findings come back as they were. -/
inductive SkipReason where
  | noProvider
  | noFindings
  | noReviewableFindings
  | noReadableFiles
  | cancelled
  | timeout
  | providerError
  | invalidResponse
  deriving Repr, DecidableEq

/-- The name under which a reason is reported. -/
def SkipReason.name : SkipReason → String
  | .noProvider => "no_provider"
  | .noFindings => "no_findings"
  | .noReviewableFindings => "no_reviewable_findings"
  | .noReadableFiles => "no_readable_files"
  | .cancelled => "cancelled"
  | .timeout => "timeout"
  | .providerError => "provider_error"
  | .invalidResponse => "invalid_response"

/-- The counts of a review, and the name of the reason why it was skipped. -/
structure ReviewStats where
  total : Int := 0
  reviewable : Int := 0
  reviewed : Int := 0
  matched : Int := 0
  files : Int := 0
  skipped : Option String := none
  deriving Repr, DecidableEq, Inhabited

/-- The counts as an object. -/
def ReviewStats.toJson (s : ReviewStats) : Json.Value := .object [
  ("total_findings", .int s.total), ("reviewable_findings", .int s.reviewable),
  ("reviewed_findings", .int s.reviewed), ("matched_findings", .int s.matched),
  ("files_reviewed", .int s.files), ("skipped_reason", Finding.jsonText s.skipped)]

/-- The limits of a review. -/
structure ReviewLimits where
  maxFiles : Int := 10
  maxFindings : Int := 10
  maxFileSize : Int := 51200
  timeout : Duration := .whole 180
  deriving Repr, DecidableEq

/-- A model, if there is one, the limits of its reviews, and the bytes of memory that can be had at a
time. -/
structure Reviewer (σ : Type) where
  model : Option (Model σ) := none
  limits : ReviewLimits := {}
  memory : Nat := 68719476736

namespace Reviewer

open Review

variable {σ : Type}

/-- Whether there is anybody to review. -/
def isEnabled (r : Reviewer σ) : Bool := r.model.isSome

/-- The counts of a review that has not begun. -/
def initialStats (findings : List Finding) : ReviewStats where
  total := findings.length
  reviewable := (findings.filter fun f => f.severity.isReviewable).length

/-- The findings that go into the prompt: those in files whose text is known, a limited number. -/
def chosen (r : Reviewer σ) (findings : List Finding) (texts : List (String × String)) :
    List Finding :=
  ((reviewable findings).filter fun f => (texts.lookup f.filePath).isSome).take
    (capped r.limits.maxFindings)

/-- The number of files that findings are in. -/
def fileCount (fs : List Finding) : Nat := (Finding.byFile fs).length

/-- The counts of a review that is about to begin. -/
def startedStats (findings reviewed : List Finding) : ReviewStats :=
  { initialStats findings with reviewed := reviewed.length, files := fileCount reviewed }

/-- The outcome of a review that did not come to its end. -/
def skip (findings : List Finding) (stats : ReviewStats) (reason : SkipReason) :
    List Finding × ReviewStats :=
  (findings, { stats with skipped := some reason.name })

/-- The outcome of a review once the model has answered, or failed to. -/
def conclude (repo : String) (findings reviewed : List Finding)
    (answer : Except Unanswered String) : List Finding × ReviewStats :=
  let stats := startedStats findings reviewed
  match answer with
  | .error .cancelled => skip findings stats .cancelled
  | .error .timedOut => skip findings stats .timeout
  | .error (.failed _) => skip findings stats .providerError
  | .ok answer =>
    match Advice.parse? answer with
    | none => skip findings stats .invalidResponse
    | some advice =>
      let (merged, matched) := attach repo findings reviewed advice
      (merged, { stats with matched := matched })

/-- Why there is nothing to ask a model, before any file is read. -/
def obstacle? (r : Reviewer σ) (findings : List Finding) : Option SkipReason :=
  if r.model.isNone then some .noProvider
  else if findings.isEmpty then some .noFindings
  else if (initialStats findings).reviewable = 0 then some .noReviewableFindings
  else none

/-- Reviews the findings of a repository. -/
def review (r : Reviewer σ) (t : FileTree) (cwd : Location) (repo : String)
    (findings : List Finding) (st : Setting σ) :
    Except ReadDefect (List Finding × ReviewStats) × Setting σ :=
  match r.obstacle? findings, r.model with
  | none, some model =>
    match textsWithin t cwd r.memory r.limits.maxFileSize repo (files r.limits.maxFiles findings) with
    | .error e => (.error e, st)
    | .ok [] => (.ok (skip findings (initialStats findings) .noReadableFiles), st)
    | .ok texts =>
      let reviewed := r.chosen findings texts
      let (answer, st) :=
        model.ask r.limits.timeout systemPrompt (userPrompt reviewed texts) st
      (.ok (conclude repo findings reviewed answer), st)
  | some reason, _ => (.ok (skip findings (initialStats findings) reason), st)
  | none, none => (.ok (skip findings (initialStats findings) .noProvider), st)

end Reviewer

end RepoAudit
