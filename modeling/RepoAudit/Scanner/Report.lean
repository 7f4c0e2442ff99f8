import RepoAudit.Finding
import RepoAudit.Json.Reader
import RepoAudit.Text.Blank
import RepoAudit.Text.Lines
import RepoAudit.Text.Lowercase

/-!
# Reports of scanners

* `Report.document` — a report that is one JSON document; null when it is none.
* `Report.objects` — the objects among the lines of a report, every other line passed over.
* `Report.labelled` — a description made of a label and a text.
-/

namespace RepoAudit.Report

/-- The document that a report consists of; null when it is no document. -/
def document (report : String) : Json.Value :=
  (Json.parse? .report report.toList).getD .null

/-- The object that a line consists of, between blanks. -/
def object? (line : List Char) : Option Json.Value :=
  match Json.parse? .report (Text.trim line) with
  | some v => if v.isObject then some v else none
  | none => none

/-- The objects among the lines of a report. -/
def objects (report : String) : List Json.Value := (Text.lines report.toList).filterMap object?

/-- Two texts joined by a colon when both are there, else the one that is. -/
def titled (title details : String) : String :=
  if title ≠ "" ∧ details ≠ "" then title ++ ": " ++ details
  else if title ≠ "" then title
  else details

/-- A package with its version. -/
def package (v : Json.Value) : String := (v.field "name").text ++ "@" ++ (v.field "version").text

/-- The word for severity in a field, in small letters. -/
def severity (v : Json.Value) (key : String) : String := Text.lower (v.field key).text

end RepoAudit.Report
