import RepoAudit.Scanner.Basic
import RepoAudit.Scanner.Report

/-!
# Scanners of source code

Programs that find suspicious code: `Scanner.semgrep`, `Scanner.bandit` and `Scanner.brakeman`.
-/

namespace RepoAudit.Scanner

namespace Semgrep

/-- The rules that are applied. -/
def ruleSets : List String := ["p/security-audit", "p/owasp-top-ten"]

/-- The finding of one result. -/
def finding (item : Json.Value) : RawFinding where
  filePath := (item.field "path").text
  line := ((item.field "start").field "line").line?
  description := ((item.field "extra").field "message").text
  severity := Report.severity (item.field "extra") "severity"
  rule := (item.field "check_id").text?

/-- The findings of a report. -/
def findings (report : String) : List RawFinding :=
  ((Report.document report).field "results").objects.map finding

end Semgrep

/-- Pattern-based analysis of any language. -/
def semgrep : Scanner where
  name := "semgrep"
  command := "semgrep"
  description := "Pattern-based static analysis"
  args repo _ :=
    .ok ("scan" :: Semgrep.ruleSets.flatMap (fun r => ["--config", r]) ++ ["--json", repo])
  read report := .ok (Semgrep.findings report)

namespace Bandit

/-- The finding of one result. -/
def finding (item : Json.Value) : RawFinding where
  filePath := (item.field "filename").text
  line := (item.field "line_number").line?
  description := (item.field "issue_text").text
  severity := Report.severity item "issue_severity"
  rule := (item.field "test_id").text?

/-- A report from its first opening brace on: progress may be printed before it. -/
def fromBrace (report : List Char) : List Char := report.dropWhile (· ≠ '\x7b')

/-- The findings of a report. -/
def findings (report : String) : List RawFinding :=
  ((Report.document (String.ofList (fromBrace report.toList))).field "results").objects.map finding

end Bandit

/-- Analysis of Python code. -/
def bandit : Scanner where
  name := "bandit"
  command := "bandit"
  description := "Python static security analysis"
  args repo _ := .ok ["-r", "-f", "json", repo]
  read report := .ok (Bandit.findings report)

namespace Brakeman

/-- The severity of a level of confidence. -/
def severity (confidence : String) : String :=
  if confidence = "High" then "high" else if confidence = "Weak" then "low" else "medium"

/-- The finding of one warning. -/
def finding (warning : Json.Value) : RawFinding where
  filePath := (warning.field "file").text
  line := (warning.field "line").line?
  description := (warning.field "warning_type").text ++ ": " ++ (warning.field "message").text
  severity := severity (warning.field "confidence").text
  rule := (warning.field "warning_type").text?

/-- The findings of a report. -/
def findings (report : String) : List RawFinding :=
  ((Report.document report).field "warnings").objects.map finding

end Brakeman

/-- Analysis of Rails applications. -/
def brakeman : Scanner where
  name := "brakeman"
  command := "brakeman"
  description := "Rails static security analysis"
  args repo _ := .ok ["-p", repo, "-f", "json", "--no-pager"]
  read report := .ok (Brakeman.findings report)

end RepoAudit.Scanner
