import RepoAudit.Scanner.Basic
import RepoAudit.Scanner.Report
import RepoAudit.Text.Order

/-!
# Scanners of dependencies

Programs that look up dependencies in advisory databases: `Scanner.govulncheck`,
`Scanner.pipAudit`, `Scanner.safety`, `Scanner.npmAudit`, `Scanner.cargoAudit` and
`Scanner.bundlerAudit`.
-/

namespace RepoAudit.Scanner

namespace Govulncheck

/-- The finding of one object, when it names a vulnerability. The place is the first step of the
trace; without one it is the module file. -/
def finding? (object : Json.Value) : Option RawFinding :=
  let finding := object.field "finding"
  let osv := (finding.field "osv").text
  if osv = "" then none
  else
    let position := ((finding.field "trace").items.headD .null).field "position"
    let file := (position.field "filename").text
    some {
      filePath := if file = "" then "go.mod" else file
      line := (position.field "line").line?
      description := "Go vulnerability: " ++ osv
      severity := "high"
      rule := some osv }

/-- The findings of a report, which is a stream of objects. -/
def findings (report : String) : List RawFinding := (Report.objects report).filterMap finding?

end Govulncheck

/-- Vulnerabilities that Go code reaches. -/
def govulncheck : Scanner where
  name := "govulncheck"
  command := "govulncheck"
  description := "Known vulnerabilities reachable from Go code"
  args _ _ := .ok ["-json", "./..."]
  read report := .ok (Govulncheck.findings report)

/-- The file that lists Python dependencies. -/
def requirementsFile : String := "requirements.txt"

namespace PipAudit

/-- The finding of one vulnerability of a dependency. -/
def finding (dependency vulnerability : Json.Value) : RawFinding :=
  let id := (vulnerability.field "id").text
  let text := (vulnerability.field "description").text
  { filePath := requirementsFile
    description := Report.package dependency ++ ": " ++ (if text = "" then id else text)
    severity := "high"
    rule := (vulnerability.field "id").text? }

/-- The findings of a report. -/
def findings (report : String) : List RawFinding :=
  ((Report.document report).field "dependencies").objects.flatMap fun dependency =>
    (dependency.field "vulns").objects.map (finding dependency)

end PipAudit

/-- Vulnerabilities of Python dependencies. -/
def pipAudit : Scanner where
  name := "pip-audit"
  command := "pip-audit"
  description := "Scan Python dependencies for known vulnerabilities using pip-audit"
  args repo _ := .ok ["-r", Path.join repo requirementsFile, "--format", "json"]
  read report := .ok (PipAudit.findings report)

namespace Safety

/-- The finding of one row: package, affected versions, installed version, advisory and identifier. A
shorter row gives none. -/
def finding? (row : Json.Value) : Option RawFinding :=
  match row.items with
  | package :: _ :: _ :: advisory :: id :: _ => some {
      filePath := requirementsFile
      description := package.text ++ ": " ++ advisory.text
      severity := "high"
      rule := id.text? }
  | _ => none

/-- The findings of a report. -/
def findings (report : String) : List RawFinding :=
  (Report.document report).items.filterMap finding?

end Safety

/-- Vulnerabilities of Python dependencies, in another database. -/
def safety : Scanner where
  name := "safety"
  command := "safety"
  description := "Check Python dependencies for known security vulnerabilities"
  args repo _ := .ok ["check", "-r", Path.join repo requirementsFile, "--json"]
  read report := .ok (Safety.findings report)

namespace NpmAudit

/-- The finding of one entry of the table of vulnerabilities. -/
def finding (key : String) (vulnerability : Json.Value) : RawFinding :=
  let name := (vulnerability.field "name").text
  let package := if name = "" then key else name
  { filePath := "package.json"
    description := "Vulnerability in " ++ package
    severity := Report.severity vulnerability "severity"
    rule := some package }

/-- The findings of a report, in the order of the keys. -/
def findings (report : String) : List RawFinding :=
  ((((Report.document report).field "vulnerabilities").fields).mergeSort fun a b =>
    Text.le a.1 b.1).map fun (key, vulnerability) => finding key vulnerability

end NpmAudit

/-- Vulnerabilities of JavaScript dependencies. -/
def npmAudit : Scanner where
  name := "npm-audit"
  command := "npm"
  description := "Known vulnerabilities in npm dependencies"
  args _ _ := .ok ["audit", "--json"]
  read report := .ok (NpmAudit.findings report)

/-- The finding of an advisory about a package that a lock file pins. -/
def advisoryFinding (file packageKey : String) (item : Json.Value) : RawFinding where
  filePath := file
  description := Report.package (item.field packageKey) ++ ": " ++
    ((item.field "advisory").field "title").text
  severity := "high"
  rule := ((item.field "advisory").field "id").text?

namespace CargoAudit

/-- The findings of a report. -/
def findings (report : String) : List RawFinding :=
  (((Report.document report).field "vulnerabilities").field "list").objects.map
    (advisoryFinding "Cargo.toml" "package")

end CargoAudit

/-- Advisories about Rust dependencies. -/
def cargoAudit : Scanner where
  name := "cargo-audit"
  command := "cargo"
  description := "RustSec advisories for Cargo dependencies"
  args _ _ := .ok ["audit", "--json"]
  read report := .ok (CargoAudit.findings report)

namespace BundlerAudit

/-- The findings of a report. -/
def findings (report : String) : List RawFinding :=
  ((Report.document report).field "results").objects.map (advisoryFinding "Gemfile.lock" "gem")

end BundlerAudit

/-- Vulnerabilities of Ruby dependencies. -/
def bundlerAudit : Scanner where
  name := "bundler-audit"
  command := "bundle-audit"
  description := "Known vulnerabilities in Gemfile.lock"
  args _ _ := .ok ["check", "--format", "json"]
  read report := .ok (BundlerAudit.findings report)

end RepoAudit.Scanner
