import RepoAudit.Proofs.Path
import RepoAudit.Proofs.Scanner.Records
import RepoAudit.Proofs.Text.Replacement

/-!
# Secrets in version control

The scanner of secrets in the working tree also looks into `.git`, where what it finds is no file of
the repository. Whether a path leads there is not asked of its parts: three tests look for the name
with a slash before it, behind it, or both. They find the name wherever there is a slash beside it, and
nothing else. A path that is nothing but the name has none.

* `Trufflehog.isVersionControl_iff` — the three tests, as a question about the parts of a path;
* `Trufflehog.detected?` — the finding of an object, wherever its file lies; `Trufflehog.finding?_eq` —
  the finding that is kept of it;
* `Report.objects_stream_of_whole` — objects written one a line are the objects that are read;
* `Trufflehog.version_control_dropped_iff` — **of the findings of a report exactly those are dropped
  whose path has a part `.git`, if and only if no path is `.git` itself**;
* `Trufflehog.version_control_kept` — a report with that path.
-/

namespace RepoAudit

/-! ### Objects written one a line -/

namespace Report

variable {ls : List (List Char)}

/-- Lines that are records or noise, and have none of the three breaks in them, are read as their
records. -/
theorem objects_stream_of_whole (hls : ∀ l ∈ ls, '\n' ∉ l ∧ '\r' ∉ l)
    (hwhole : ∀ l ∈ ls, IsWhole l ∧ ((record? l).isSome = true ∨ IsNoise l)) :
    objects (stream ls) = ls.filterMap record? := by
  have hnil : object? [] = none := rfl
  rw [objects, stream, String.toList_ofList, filterMap_lines_stream hnil fun l hl => (hls l hl).2,
    List.filterMap_eq_flatMap_toList]
  refine List.flatMap_congr fun l hl => ?_
  cases hv : record? l with
  | none =>
    have hnoise := (hwhole l hl).2.resolve_left (by rw [hv]; decide)
    exact List.filterMap_eq_nil_iff.mpr hnoise
  | some v =>
    have hunbroken := (isUnbroken_iff_isWhole hv (hls l hl).1 (hls l hl).2).mpr (hwhole l hl).1
    exact filterMap_lines_of_unbroken hv hunbroken

end Report

namespace Scanner.Trufflehog

open Report

variable {file : String}

/-! ### The three tests -/

/-- The tests find the name in every path that has it as a part, unless it is all of the path. -/
theorem isVersionControl_iff :
    isVersionControl file = true ↔ ".git" ∈ Path.parts file ∧ file ≠ ".git" := by
  have hfile : file ≠ ".git" ↔ file.toList ≠ ".git".toList := not_congr String.toList_inj.symm
  have hslash : '/' ∉ ".git".toList := by decide
  rw [isVersionControl, Bool.or_eq_true, Bool.or_eq_true, Text.occursIn_iff,
    List.isSuffixOf_iff_suffix, List.isPrefixOf_iff_prefix, Path.mem_parts_iff,
    Text.mem_splitOn_iff hslash, hfile]
  constructor
  · intro htest
    refine ⟨?_, fun heq => ?_⟩
    · rcases htest with (hinner | hlast) | hfirst
      · exact .inr (.inr (.inr hinner))
      · exact .inr (.inr (.inl hlast))
      · exact .inr (.inl hfirst)
    · -- each of the tests asks for more characters than the name has
      rw [heq] at htest
      exact absurd htest (by decide)
  · rintro ⟨heq | hfirst | hlast | hinner, hne⟩
    · exact absurd heq hne
    · exact .inr hfirst
    · exact .inl (.inr hlast)
    · exact .inl (.inl hinner)

/-- Longer names that hold the text are other names. -/
example : ".git" ∉ Path.parts ".github/x.git/.gitignore" := by decide

/-! ### Findings -/

/-- The path in an object. -/
def path (object : Json.Value) : String :=
  ((((object.field "SourceMetadata").field "Data").field "Filesystem").field "file").text

/-- The finding of an object that names a detector, wherever its file lies. -/
def detected? (object : Json.Value) : Option RawFinding :=
  let detector := (object.field "DetectorName").text
  if detector = "" then none
  else some {
    filePath := path object
    line := ((((object.field "SourceMetadata").field "Data").field "Filesystem").field "line").line?
    description := "Secret detected: " ++ detector
    severity := "high"
    rule := some detector }

/-- A finding is kept unless its path is in version control. -/
theorem finding?_eq (object : Json.Value) :
    finding? object = (detected? object).filter fun f => !isVersionControl f.filePath := by
  simp only [finding?, detected?]
  by_cases hdetector : (object.field "DetectorName").text = ""
  · rw [if_pos (.inl hdetector), if_pos hdetector, Option.filter_none]
  · rw [if_neg hdetector, Option.filter_some]
    by_cases hfile : isVersionControl (path object) = true
    · rw [hfile]
      exact if_pos (.inr hfile)
    · rw [Bool.not_eq_true] at hfile
      rw [hfile]
      exact if_neg fun htest => htest.elim hdetector (by simpa [path] using hfile)

theorem findings_eq (report : String) : findings report =
    ((objects report).filterMap detected?).filter fun f => !isVersionControl f.filePath := by
  rw [findings, List.filter_filterMap]
  exact List.filterMap_congr fun object _ => finding?_eq object

/-- **What is dropped as version control.** Of the findings of a report all are kept that have no part
`.git` in their path, and those whose path is `.git` itself; the others are dropped. So exactly those
with this part are dropped, if and only if no path is `.git` itself. The findings are those of the
objects in the report, which are any objects written one a line, when no line has one of the three
breaks in it. -/
theorem version_control_dropped_iff (report : String) :
    trufflehog.read report = .ok (((objects report).filterMap detected?).filter fun f =>
        f.filePath = ".git" ∨ ".git" ∉ Path.parts f.filePath) ∧
      (trufflehog.read report = .ok (((objects report).filterMap detected?).filter fun f =>
          ".git" ∉ Path.parts f.filePath) ↔
        ∀ f ∈ (objects report).filterMap detected?, f.filePath ≠ ".git") ∧
      ∀ ls : List (List Char), (∀ l ∈ ls, '\n' ∉ l ∧ '\r' ∉ l) →
        (∀ l ∈ ls, IsWhole l ∧ ((record? l).isSome = true ∨ IsNoise l)) →
        objects (stream ls) = ls.filterMap record? := by
  have hkept : ∀ f : RawFinding, (!isVersionControl f.filePath) =
      decide (f.filePath = ".git" ∨ ".git" ∉ Path.parts f.filePath) := by
    intro f
    rw [Bool.eq_iff_iff, Bool.not_eq_true', ← Bool.not_eq_true, isVersionControl_iff,
      decide_eq_true_eq]
    tauto
  have hread : trufflehog.read report = .ok (((objects report).filterMap detected?).filter fun f =>
      f.filePath = ".git" ∨ ".git" ∉ Path.parts f.filePath) := by
    show Except.ok (findings report) = _
    rw [findings_eq]
    simp only [hkept]
  refine ⟨hread, ?_, fun ls hls hwhole => objects_stream_of_whole hls hwhole⟩
  rw [hread, Except.ok.injEq]
  constructor
  · intro hsame f hf heq
    have hmem : f ∈ ((objects report).filterMap detected?).filter fun f =>
        ".git" ∉ Path.parts f.filePath := by
      rw [← hsame]
      exact List.mem_filter.mpr ⟨hf, decide_eq_true (.inl heq)⟩
    have hno := of_decide_eq_true (List.mem_filter.mp hmem).2
    rw [heq] at hno
    exact absurd hno (by decide)
  · intro hne
    refine List.filter_congr fun f hf => ?_
    rw [decide_eq_decide]
    exact or_iff_right (hne f hf)

/-- An object with the name within its path and one with longer names, behind a line of progress. -/
theorem version_control_dropped_iff_inner :
    let object (file : String) := ("\x7b\"DetectorName\": \"D\", \"SourceMetadata\": \x7b\"Data\": " ++
      "\x7b\"Filesystem\": \x7b\"file\": \"" ++ file ++ "\"\x7d\x7d\x7d\x7d").toList
    let ls := ["scanning".toList, object "r/.git/a", object ".github/a.git"]
    ((∀ l ∈ ls, '\n' ∉ l ∧ '\r' ∉ l) ∧
        ∀ l ∈ ls, IsWhole l ∧ ((record? l).isSome = true ∨ IsNoise l)) ∧
      objects (stream ls) = ls.filterMap record? ∧
      trufflehog.read (stream ls) = .ok (((objects (stream ls)).filterMap detected?).filter fun f =>
        ".git" ∉ Path.parts f.filePath) := by
  intro object ls
  have hls : ((∀ l ∈ ls, '\n' ∉ l ∧ '\r' ∉ l) ∧
      ∀ l ∈ ls, IsWhole l ∧ ((record? l).isSome = true ∨ IsNoise l)) ∧
      ∀ f ∈ (ls.filterMap record?).filterMap detected?, f.filePath ≠ ".git" := by
    decide +kernel
  obtain ⟨hlines, hpaths⟩ := hls
  obtain ⟨-, hiff, hobjects⟩ := version_control_dropped_iff (stream ls)
  have hread := hobjects ls hlines.1 hlines.2
  rw [← hread] at hpaths
  exact ⟨hlines, hread, hiff.mpr hpaths⟩

/-- The link file of a repository that lies at the root of the tree has the name and nothing else for
its path. -/
theorem version_control_kept :
    let report := "\x7b\"DetectorName\": \"AWS\", \"SourceMetadata\": \x7b\"Data\": " ++
      "\x7b\"Filesystem\": \x7b\"file\": \".git\", \"line\": 1\x7d\x7d\x7d\x7d\n"
    ((objects report).filterMap detected? =
          [⟨".git", "Secret detected: AWS", "high", some 1, some "AWS"⟩] ∧
        ".git" ∈ Path.parts ".git") ∧
      trufflehog.read report = .ok [⟨".git", "Secret detected: AWS", "high", some 1, some "AWS"⟩] := by
  intro report
  have hdetected : (objects report).filterMap detected? =
      [⟨".git", "Secret detected: AWS", "high", some 1, some "AWS"⟩] := by
    decide +kernel
  refine ⟨⟨hdetected, by decide⟩, ?_⟩
  show Except.ok (findings report) = _
  rw [findings_eq, hdetected]
  rfl

end Scanner.Trufflehog

end RepoAudit
