import RepoAudit.Proofs.Json.Cut
import RepoAudit.Scanner.Code
import RepoAudit.Scanner.Dependencies
import RepoAudit.Scanner.Secrets

/-!
# Reports that are cut off

Ten of the scanners report one document. A scanner that is killed, or whose output is limited, leaves a
beginning of its report. Such a beginning is no document, so nothing is read from it; and where the
report is looked for behind the first opening brace, that brace is the one that the whole report begins
with, never that of an object inside.

* `documentScanners` — these scanners, with the kind of document that each of them reads;
* `document_cut`, `document_fromBrace_cut` — a report that is cut off holds no document;
* `read_cut_report` — **no finding is read from a report that is cut off anywhere**.
-/

namespace RepoAudit

namespace Json

/-- The bracket that ends a value. -/
def Kind.closing? : Kind → Option Char
  | .array => some ']'
  | .object => some '\x7d'
  | .scalar => none

/-- A closing bracket is no blank. -/
theorem not_isGap_of_closing? {k : Kind} {c : Char} (h : c ∈ k.closing?) : ¬ IsGap c := by
  cases k with
  | scalar => cases h
  | array =>
    obtain rfl : ']' = c := Option.some.inj h
    decide
  | object =>
    obtain rfl : '\x7d' = c := Option.some.inj h
    decide

end Json

namespace Report

variable {report cut : String} {v : Json.Value}

theorem prefix_ne_of_ne (h : cut ≠ report) : cut.toList ≠ report.toList :=
  fun heq => h (String.toList_inj.mp heq)

/-- A report that is cut off is no document. -/
theorem document_cut (hreport : Json.parse? .report report.toList = some v)
    (hkind : v.kind ≠ .scalar) (hlast : ∀ c ∈ report.toList.getLast?, ¬ Json.IsGap c)
    (hcut : cut.toList <+: report.toList) (hne : cut ≠ report) : document cut = .null := by
  rw [document, Json.parse?_cut hreport hkind hlast hcut (prefix_ne_of_ne hne)]
  rfl

end Report

namespace Scanner

/-- What stands behind the first opening brace of a beginning is a beginning of what stands behind the
first one of the whole, and it is shorter. -/
theorem Bandit.fromBrace_cut {report cut : List Char} (hcut : cut <+: report) (hne : cut ≠ report) :
    Bandit.fromBrace cut = [] ∨
      Bandit.fromBrace cut <+: Bandit.fromBrace report ∧
        Bandit.fromBrace cut ≠ Bandit.fromBrace report := by
  obtain ⟨rest, rfl⟩ := hcut
  have hrest : rest ≠ [] := by
    rintro rfl
    exact hne (List.append_nil cut).symm
  rw [Bandit.fromBrace, Bandit.fromBrace, List.dropWhile_append]
  split
  · next hempty => exact .inl (List.isEmpty_iff.mp hempty)
  · refine .inr ⟨List.prefix_append _ _, fun heq => hrest ?_⟩
    exact List.self_eq_append_right.mp heq

/-- A report that is cut off holds no document behind its first opening brace either. -/
theorem Bandit.document_fromBrace_cut {report cut : String} {v : Json.Value}
    (hreport : Json.parse? .report report.toList = some v) (hkind : v.kind = .object)
    (hlast : ∀ c ∈ report.toList.getLast?, ¬ Json.IsGap c) (hcut : cut.toList <+: report.toList)
    (hne : cut ≠ report) :
    Report.document (String.ofList (Bandit.fromBrace cut.toList)) = .null := by
  rw [Report.document, String.toList_ofList]
  have hwhole : Json.parse? .report (Bandit.fromBrace report.toList) = some v :=
    Json.parse?_dropWhile_brace hreport hkind
  rcases Bandit.fromBrace_cut hcut (Report.prefix_ne_of_ne hne) with hempty | ⟨hpre, hshort⟩
  · rw [hempty]
    rfl
  · have hsuffix : Bandit.fromBrace report.toList <:+ report.toList := List.dropWhile_suffix _
    have hlast' : ∀ c ∈ (Bandit.fromBrace report.toList).getLast?, ¬ Json.IsGap c := by
      intro c hc
      apply hlast c
      obtain ⟨before, hbefore⟩ := hsuffix
      rw [← hbefore, List.getLast?_append, hc]
      rfl
    rw [Json.parse?_cut hwhole (by rw [hkind]; decide) hlast' hpre hshort]
    rfl

/-- The scanners whose report is one document, with the kind of that document. -/
def documentScanners : List (Scanner × Json.Kind) :=
  [(trivy, .object), (semgrep, .object), (gitleaks, .array), (bandit, .object), (pipAudit, .object),
    (safety, .array), (npmAudit, .object), (cargoAudit, .object), (bundlerAudit, .object),
    (brakeman, .object)]

/-- **Nothing is read from a report that is cut off.** Let a report be one document of the kind that a
scanner reads, up to its closing bracket. From every beginning that is shorter the scanner reads no
finding at all, neither part of what was reported nor anything else. -/
theorem read_cut_report {scanner : Scanner} {kind : Json.Kind}
    (hscanner : (scanner, kind) ∈ documentScanners) {report cut : String} {v : Json.Value}
    (hreport : Json.parse? .report report.toList = some v) (hkind : v.kind = kind)
    (hlast : report.toList.getLast? = kind.closing?) (hcut : cut.toList <+: report.toList)
    (hne : cut ≠ report) : scanner.read cut = .ok [] := by
  have hend : ∀ c ∈ report.toList.getLast?, ¬ Json.IsGap c := by
    intro c hc
    rw [hlast] at hc
    exact Json.not_isGap_of_closing? hc
  have hcontainer : kind ≠ .scalar := by
    rintro rfl
    simp [documentScanners] at hscanner
  have hnull : Report.document cut = .null :=
    Report.document_cut hreport (by rw [hkind]; exact hcontainer) hend hcut hne
  simp only [documentScanners, List.mem_cons, Prod.mk.injEq, List.not_mem_nil, or_false] at hscanner
  rcases hscanner with ⟨rfl, rfl⟩ | ⟨rfl, rfl⟩ | ⟨rfl, rfl⟩ | ⟨rfl, rfl⟩ | ⟨rfl, rfl⟩ | ⟨rfl, rfl⟩ |
    ⟨rfl, rfl⟩ | ⟨rfl, rfl⟩ | ⟨rfl, rfl⟩ | ⟨rfl, rfl⟩
  · show Except.ok (Trivy.findings cut) = .ok []
    rw [Trivy.findings, hnull]
    rfl
  · show Except.ok (Semgrep.findings cut) = .ok []
    rw [Semgrep.findings, hnull]
    rfl
  · show Except.ok (Gitleaks.findings cut) = .ok []
    rw [Gitleaks.findings, hnull]
    rfl
  · show Except.ok (Bandit.findings cut) = .ok []
    rw [Bandit.findings, Bandit.document_fromBrace_cut hreport hkind hend hcut hne]
    rfl
  · show Except.ok (PipAudit.findings cut) = .ok []
    rw [PipAudit.findings, hnull]
    rfl
  · show Except.ok (Safety.findings cut) = .ok []
    rw [Safety.findings, hnull]
    rfl
  · show Except.ok (NpmAudit.findings cut) = .ok []
    have hfields : (Json.Value.null.field "vulnerabilities").fields = [] := rfl
    rw [NpmAudit.findings, hnull, hfields, List.mergeSort_nil]
    rfl
  · show Except.ok (CargoAudit.findings cut) = .ok []
    rw [CargoAudit.findings, hnull]
    rfl
  · show Except.ok (BundlerAudit.findings cut) = .ok []
    rw [BundlerAudit.findings, hnull]
    rfl
  · show Except.ok (Brakeman.findings cut) = .ok []
    rw [Brakeman.findings, hnull]
    rfl

/-- A report cut off right behind a complete object inside: read as a whole it has a finding. -/
theorem read_cut_report_inner :
    let report := " \x7b\"results\": [\x7b\"filename\": \"a.py\", \"issue_text\": \"t\"\x7d]\x7d"
    let cut := " \x7b\"results\": [\x7b\"filename\": \"a.py\", \"issue_text\": \"t\"\x7d"
    ((bandit, .object) ∈ documentScanners ∧ cut.toList <+: report.toList) ∧
      Bandit.findings report = [⟨"a.py", "t", "", none, none⟩] ∧ bandit.read cut = .ok [] := by
  intro report cut
  have hscanner : (bandit, Json.Kind.object) ∈ documentScanners :=
    .tail _ (.tail _ (.tail _ (.head _)))
  have hparsed : (Json.parse? .report report.toList).map Json.Value.kind = some .object := by
    decide +kernel
  obtain ⟨v, hv, hkind⟩ := Option.map_eq_some_iff.mp hparsed
  have hlast : report.toList.getLast? = Json.Kind.object.closing? := by decide +kernel
  have hcut : cut.toList <+: report.toList := by decide +kernel
  have hne : cut ≠ report := by decide +kernel
  exact ⟨⟨hscanner, hcut⟩, by decide +kernel, read_cut_report hscanner hv hkind hlast hcut hne⟩

end Scanner

end RepoAudit
