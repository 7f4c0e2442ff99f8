import RepoAudit.Finding
import RepoAudit.Text.Order

/-!
# What is sent to review

* `Review.reviewable` — the findings severe enough, the most severe first, equal ones by path.
* `Review.files` — the files of these findings, a limited number of them, those with the most severe
  findings first.
-/

namespace RepoAudit.Review

/-- Whether a finding comes before another or beside it: by severity, then by path. -/
def precedes (a b : Finding) : Bool :=
  a.severity.rank < b.severity.rank ||
    (a.severity.rank == b.severity.rank && Text.le a.filePath b.filePath)

/-- The findings severe enough for review, in the order in which they are sent. -/
def reviewable (fs : List Finding) : List Finding :=
  (fs.filter fun f => f.severity.isReviewable).mergeSort precedes

/-- Files with the rank of their most severe finding. -/
abbrev Scores := List (String × Nat)

/-- Counts a finding of a rank for a file. -/
def Scores.add (path : String) (rank : Nat) : Scores → Scores
  | [] => [(path, rank)]
  | (p, r) :: rest => if p = path then (p, min r rank) :: rest else (p, r) :: Scores.add path rank rest

/-- The files of findings, each with the rank of the most severe one. -/
def scores (fs : List Finding) : Scores :=
  fs.foldl (fun table f => table.add f.filePath f.severity.rank) []

/-- Whether a scored file comes before another or beside it. -/
def scorePrecedes (a b : String × Nat) : Bool := a.2 < b.2 || (a.2 == b.2 && Text.le a.1 b.1)

/-- A limit as a count; a negative limit lets nothing through. -/
def capped (limit : Int) : Nat := limit.toNat

/-- The files to be read for review, at most `limit` of them. -/
def files (limit : Int) (fs : List Finding) : List String :=
  (((scores (reviewable fs)).mergeSort scorePrecedes).take (capped limit)).map Prod.fst

end RepoAudit.Review
