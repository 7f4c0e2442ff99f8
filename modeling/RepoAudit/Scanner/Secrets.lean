import RepoAudit.Scanner.Basic
import RepoAudit.Scanner.Report

/-!
# Scanners of secrets

Programs that find keys and passwords, one of them along with other problems:
`Scanner.trivy`, `Scanner.trufflehog` and `Scanner.gitleaks`.
-/

namespace RepoAudit.Scanner

namespace Trivy

/-- The finding of a vulnerable dependency. -/
def vulnerability (file : String) (item : Json.Value) : RawFinding where
  filePath := file
  description := Report.titled (item.field "Title").text (item.field "Description").text
  severity := Report.severity item "Severity"
  rule := (item.field "VulnerabilityID").text?

/-- The finding of a secret. -/
def secret (file : String) (item : Json.Value) : RawFinding where
  filePath := file
  line := (item.field "StartLine").line?
  description := (item.field "Title").text
  severity := Report.severity item "Severity"
  rule := (item.field "RuleID").text?

/-- The finding of a misconfiguration. -/
def misconfiguration (file : String) (item : Json.Value) : RawFinding where
  filePath := file
  line := ((item.field "CauseMetadata").field "StartLine").line?
  description := Report.titled (item.field "Title").text (item.field "Message").text
  severity := Report.severity item "Severity"
  rule := (item.field "ID").text?

/-- The findings of one target: vulnerabilities, then secrets, then misconfigurations. -/
def targetFindings (target : Json.Value) : List RawFinding :=
  let file := (target.field "Target").text
  (target.field "Vulnerabilities").objects.map (vulnerability file) ++
    (target.field "Secrets").objects.map (secret file) ++
    (target.field "Misconfigurations").objects.map (misconfiguration file)

/-- The findings of a report. -/
def findings (report : String) : List RawFinding :=
  ((Report.document report).field "Results").objects.flatMap targetFindings

end Trivy

/-- Dependencies, secrets and misconfigurations of a directory. -/
def trivy : Scanner where
  name := "trivy"
  command := "trivy"
  description := "Dependency vulnerabilities, secrets and misconfigurations"
  args repo _ :=
    .ok ["fs", "--format", "json", "--scanners", "vuln,secret,misconfig", "--severity",
      "CRITICAL,HIGH,MEDIUM,LOW", "--skip-dirs", ".git", repo]
  read report := .ok (Trivy.findings report)

namespace Trufflehog

/-- Whether a file belongs to the version control of the repository. -/
def isVersionControl (file : String) : Bool :=
  Text.occursIn "/.git/".toList file.toList || "/.git".toList.isSuffixOf file.toList ||
    ".git/".toList.isPrefixOf file.toList

/-- The finding of one object, when a detector reports it and it lies outside version control. -/
def finding? (object : Json.Value) : Option RawFinding :=
  let detector := (object.field "DetectorName").text
  let place := ((object.field "SourceMetadata").field "Data").field "Filesystem"
  let file := (place.field "file").text
  if detector = "" ∨ isVersionControl file then none
  else some {
    filePath := file
    line := (place.field "line").line?
    description := "Secret detected: " ++ detector
    severity := "high"
    rule := some detector }

/-- The findings of a report, which is a stream of objects between progress lines. -/
def findings (report : String) : List RawFinding := (Report.objects report).filterMap finding?

end Trufflehog

/-- Secrets in the working tree. -/
def trufflehog : Scanner where
  name := "trufflehog"
  command := "trufflehog"
  description := "Secret detection"
  args repo _ := .ok ["filesystem", "--json", repo]
  read report := .ok (Trufflehog.findings report)

namespace Gitleaks

/-- The name of the file that the report is written to. -/
def reportName : String := ".gitleaks-report.json"

/-- Where the report is written. -/
def reportPath (repo : String) : String := Path.join repo reportName

/-- The finding of one leak. -/
def finding (item : Json.Value) : RawFinding where
  filePath := (item.field "File").text
  line := (item.field "StartLine").line?
  description := (item.field "Description").text
  severity := "high"
  rule := (item.field "RuleID").text?

/-- The findings of a report. -/
def findings (report : String) : List RawFinding := (Report.document report).objects.map finding

end Gitleaks

/-- Secrets, reported through a file in the repository. -/
def gitleaks : Scanner where
  name := "gitleaks"
  command := "gitleaks"
  description := "Secret detection"
  args repo _ :=
    .ok ["detect", "--source", repo, "--report-format", "json", "--report-path",
      Gitleaks.reportPath repo, "--no-git"]
  read report := .ok (Gitleaks.findings report)
  collect repo _ := .ofFile (Gitleaks.reportPath repo)

end RepoAudit.Scanner
