import RepoAudit.Text.Blank
import RepoAudit.Text.Lowercase

/-!
# Severities

* `Severity` — the five levels, the most severe first.
* `Severity.ofToken` — the level that a tool's own word stands for; an unknown word is medium.
-/

namespace RepoAudit

/-- How severe a finding is. -/
inductive Severity where
  | critical
  | high
  | medium
  | low
  | info
  deriving Repr, DecidableEq, Inhabited

namespace Severity

/-- The place of a level, counted from the most severe. -/
def rank : Severity → Nat
  | .critical => 0
  | .high => 1
  | .medium => 2
  | .low => 3
  | .info => 4

/-- The written name. -/
def name : Severity → String
  | .critical => "critical"
  | .high => "high"
  | .medium => "medium"
  | .low => "low"
  | .info => "info"

/-- The levels in order. -/
def all : List Severity := [.critical, .high, .medium, .low, .info]

/-- The level of a written name. -/
def ofName? (s : String) : Option Severity := all.find? fun v => v.name = s

/-- The words of tools and the levels they stand for. -/
def synonyms : List (String × Severity) :=
  [("critical", .critical), ("crit", .critical), ("high", .high), ("error", .high),
    ("medium", .medium), ("moderate", .medium), ("warning", .medium), ("warn", .medium),
    ("low", .low), ("info", .info), ("informational", .info), ("note", .info)]

/-- The level that a word stands for, in any letter case and between blanks; an unknown word is
medium. -/
def ofToken (token : String) : Severity :=
  (synonyms.lookup (Text.lower (Text.strip token))).getD .medium

/-- Whether findings of a level are sent to review. -/
def isReviewable : Severity → Bool
  | .critical | .high | .medium => true
  | .low | .info => false

end Severity

end RepoAudit
