import RepoAudit.Finding

/-!
# From tool results to one list of findings

* `Finding.collect` — the complete raw findings of all runs that count, on the common scale.
* `Finding.deduplicate` — the first finding of each place and description.
* `Finding.ranked` — the most severe first, equal severities in their order.
* `Finding.aggregate` — the three in a row.
* `Finding.groupBy` and the views built on it — findings by file and by severity.
-/

namespace RepoAudit.Finding

/-- A line number that is positive. -/
def positive? : Option Int → Option Int
  | some n => if 0 < n then some n else none
  | none => none

/-- A text that is not empty. -/
def nonEmpty? : Option String → Option String
  | some s => if s = "" then none else some s
  | none => none

/-- A raw finding of a tool on the common scale. -/
def ofRaw (id tool : String) (raw : RawFinding) : Finding where
  id := id
  severity := Severity.ofToken raw.severity
  tool := tool
  filePath := raw.filePath
  description := raw.description
  line := positive? raw.line
  rule := nonEmpty? raw.rule

/-- Whether a raw finding names a file and says something. -/
def isComplete (raw : RawFinding) : Bool := raw.filePath != "" && raw.description != ""

/-- The complete raw findings of the runs that count, in order, each with its tool. -/
def completeRaws (results : List ToolResult) : List (String × RawFinding) :=
  (results.filter ToolResult.counts).flatMap fun r =>
    (r.findings.filter isComplete).map fun raw => (r.tool, raw)

/-- The findings of all runs that count; the `n`-th takes the identifier `newId n`. -/
def collect (newId : Nat → String) (results : List ToolResult) : List Finding :=
  (completeRaws results).mapIdx fun n (tool, raw) => ofRaw (newId n) tool raw

/-- What makes two findings the same: file, line and description. -/
def key (f : Finding) : String × Int × String := (f.filePath, f.lineOrZero, f.description)

/-- The scan behind `deduplicate`: `seen` holds the keys met so far. -/
def deduplicateScan (seen : List (String × Int × String)) : List Finding → List Finding
  | [] => []
  | f :: fs =>
    if f.key ∈ seen then deduplicateScan seen fs else f :: deduplicateScan (f.key :: seen) fs

/-- The first finding of each key. -/
def deduplicate (fs : List Finding) : List Finding := deduplicateScan [] fs

/-- The most severe findings first, equal severities in their order. -/
def ranked (fs : List Finding) : List Finding :=
  fs.mergeSort fun a b => a.severity.rank ≤ b.severity.rank

/-- The distinct findings of all runs that count, the most severe first. -/
def aggregate (newId : Nat → String) (results : List ToolResult) : List Finding :=
  ranked (deduplicate (collect newId results))

/-! ### Views -/

/-- Adds an item to the group of its key, or opens one at the end. -/
def addToGroup {α β : Type} [DecidableEq α] (k : α) (x : β) : List (α × List β) → List (α × List β)
  | [] => [(k, [x])]
  | (k', xs) :: rest =>
    if k' = k then (k', xs ++ [x]) :: rest else (k', xs) :: addToGroup k x rest

/-- The items grouped by a key, groups and items in order of first occurrence. -/
def groupBy {α β : Type} [DecidableEq α] (key : β → α) (xs : List β) : List (α × List β) :=
  xs.foldl (fun groups x => addToGroup (key x) x groups) []

/-- The findings of each file. -/
def byFile (fs : List Finding) : List (String × List Finding) := groupBy filePath fs

/-- The findings of each severity. -/
def bySeverity (fs : List Finding) : List (Severity × List Finding) := groupBy severity fs

/-- Adds one to the count of a severity, or starts it at the end. -/
def addToCount (s : Severity) : List (Severity × Nat) → List (Severity × Nat)
  | [] => [(s, 1)]
  | (s', n) :: rest => if s' = s then (s', n + 1) :: rest else (s', n) :: addToCount s rest

/-- How many findings there are of each severity that occurs. -/
def countBySeverity (fs : List Finding) : List (Severity × Nat) :=
  fs.foldl (fun counts f => addToCount f.severity counts) []

/-- The scan behind `uniqueFiles`. -/
def uniqueScan (seen : List String) : List Finding → List String
  | [] => []
  | f :: fs =>
    if f.filePath = "" ∨ f.filePath ∈ seen then uniqueScan seen fs
    else f.filePath :: uniqueScan (f.filePath :: seen) fs

/-- The files that findings name, each once, in order of first occurrence. -/
def uniqueFiles (fs : List Finding) : List String := uniqueScan [] fs

/-- The findings that are at least as severe as a word says. -/
def atLeast (token : String) (fs : List Finding) : List Finding :=
  fs.filter fun f => f.severity.rank ≤ (Severity.ofToken token).rank

end RepoAudit.Finding
