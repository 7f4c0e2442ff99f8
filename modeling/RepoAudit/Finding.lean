import RepoAudit.Severity
import RepoAudit.Json.Value

/-!
# Findings

* `RawFinding` — what one tool reports at one place, in its own words.
* `ToolResult` — the outcome of one tool run.
* `Finding` — a report on the common severity scale, to which a remediation may be attached.
-/

namespace RepoAudit

/-- What a tool reports at one place. -/
structure RawFinding where
  filePath : String
  description : String
  severity : String
  line : Option Int := none
  rule : Option String := none
  deriving Repr, DecidableEq, Inhabited

/-- The outcome of one tool run. -/
structure ToolResult where
  tool : String
  findings : List RawFinding := []
  timedOut : Bool := false
  error : Option String := none
  deriving Repr, DecidableEq, Inhabited

/-- Whether a run ended in time and without an error. -/
def ToolResult.succeeded (r : ToolResult) : Bool := !r.timedOut && r.error.isNone

/-- Whether the findings of a run count: it ended in time, and any error it has is empty. -/
def ToolResult.counts (r : ToolResult) : Bool := !r.timedOut && (r.error.getD "" == "")

/-- A finding on the common scale. -/
structure Finding where
  id : String
  severity : Severity
  tool : String
  filePath : String
  description : String
  line : Option Int := none
  remediation : Option String := none
  codeExample : Option String := none
  rule : Option String := none
  deriving Repr, DecidableEq, Inhabited

namespace Finding

/-- The line of a finding, 0 when it has none. -/
def lineOrZero (f : Finding) : Int := f.line.getD 0

/-- An optional text as JSON. -/
def jsonText : Option String → Json.Value
  | none => .null
  | some s => .string s

/-- An optional number as JSON. -/
def jsonInt : Option Int → Json.Value
  | none => .null
  | some n => .int n

/-- A finding as JSON. -/
def toJson (f : Finding) : Json.Value := .object [
  ("id", .string f.id), ("severity", .string f.severity.name), ("tool", .string f.tool),
  ("file_path", .string f.filePath), ("line_number", jsonInt f.line),
  ("description", .string f.description), ("remediation", jsonText f.remediation),
  ("code_example", jsonText f.codeExample), ("rule_id", jsonText f.rule)]

end Finding

/-- A raw finding as JSON. -/
def RawFinding.toJson (f : RawFinding) : Json.Value := .object [
  ("file_path", .string f.filePath), ("description", .string f.description),
  ("severity", .string f.severity), ("line_number", Finding.jsonInt f.line),
  ("rule_id", Finding.jsonText f.rule)]

/-- The outcome of a tool run as JSON. -/
def ToolResult.toJson (r : ToolResult) : Json.Value := .object [
  ("tool", .string r.tool), ("findings", .array (r.findings.map RawFinding.toJson)),
  ("timed_out", .bool r.timedOut), ("error", Finding.jsonText r.error),
  ("success", .bool r.succeeded)]

end RepoAudit
