import RepoAudit.Proofs.Json.Pieces
import RepoAudit.Proofs.Text.Lines
import RepoAudit.Scanner.Dependencies
import RepoAudit.Scanner.Secrets

/-!
# Reports that are streams of records

Two scanners print one object a line, between lines of other text. A line of such a report ends with a
line feed. The readers break it at other characters as well, and three of these, U+0085, U+2028 and
U+2029, may stand as they are inside a string of an object. An object with one of them is cut into
pieces, and none of the pieces is read as a finding.

* `Report.record?` — the object that a line is; `Report.HoldsNoObject` — no part of a line is one;
  `Report.IsNoise` — nothing that is looked at for itself is one, which is less to ask;
* `Report.IsWhole` — a line without one of these three; `isUnbroken_iff_isWhole` — records have no others;
* `Report.lineFindings`, `Report.recordFindings` — what a line gives as it is read, and what it should;
* `streamScanners` — the scanners, with their reading of one object and the objects that they report;
* `lineFindings_of_broken` — a record with a break in it gives nothing, whatever it says;
* `records_kept_iff` — **the findings of a stream are those of its records, in their order, if and only
  if no record that is reported has a break in it**;
* `record_lost` — a record with U+2028 in a string, which has a finding that is not read.
-/

namespace RepoAudit

namespace Report

variable {α : Type} {l piece : List Char} {ls : List (List Char)} {v : Json.Value}
  {f : Json.Value → Option RawFinding}

/-- The object that a text is, with nothing around it but the blanks of the format. -/
def record? (line : List Char) : Option Json.Value :=
  (Json.parse? .report line).filter Json.Value.isObject

/-- No part of a line, wherever it begins and ends, is the text of an object. -/
def HoldsNoObject (line : List Char) : Prop := ∀ part, part <:+: line → record? part = none

/-- No part of a line that is looked at for itself is an object. -/
def IsNoise (line : List Char) : Prop := ∀ piece ∈ Text.lines line, object? piece = none

instance (line : List Char) : Decidable (IsNoise line) :=
  decidable_of_iff ((Text.lines line).all (fun piece => (object? piece).isNone) = true)
    (by simp [IsNoise])

/-- The characters that break a line and may stand as they are inside a string. -/
def inlineBreaks : List Char := ['\u0085', '\u2028', '\u2029']

/-- A line without these characters. -/
def IsWhole (line : List Char) : Prop := ∀ c ∈ inlineBreaks, c ∉ line

instance (line : List Char) : Decidable (IsWhole line) :=
  decidable_of_iff (inlineBreaks.all (fun c => decide (c ∉ line)) = true) (by simp [IsWhole])

/-- The text of a stream, each line of it ended by a line feed. -/
def stream (ls : List (List Char)) : String := String.ofList (ls.flatMap (· ++ ['\n']))

/-- The findings of a line that is read for itself. -/
def lineFindings (f : Json.Value → Option RawFinding) (line : List Char) : List RawFinding :=
  (objects (String.ofList line)).filterMap f

/-- The finding of the object that a line is. -/
def recordFindings (f : Json.Value → Option RawFinding) (line : List Char) : List RawFinding :=
  ((record? line).bind f).toList

theorem object?_eq (line : List Char) : object? line = record? (Text.trim line) := by
  rw [object?, record?]
  cases Json.parse? .report (Text.trim line) with
  | none => rfl
  | some v => rw [Option.filter_some]

/-- The blanks that are stripped from a record do not matter. -/
theorem object?_of_record? (h : record? l = some v) : object? l = some v := by
  rw [record?, Option.filter_eq_some_iff] at h
  rw [object?_eq, record?, Json.parse?_trim h.1, Option.filter_some, if_pos h.2]

/-- What is looked at for itself is a part of the line, and stripping it leaves a part of it. -/
theorem HoldsNoObject.isNoise (h : HoldsNoObject l) (hreturn : '\r' ∉ l) : IsNoise l := by
  intro piece hpiece
  rw [object?_eq]
  exact h _ ((Text.trim_infix piece).trans (Text.infix_of_mem_lines hreturn hpiece))

/-! ### Line by line -/

/-- What is taken from the lines of a stream is taken from each of its lines in turn. -/
theorem filterMap_lines_stream {take : List Char → Option α} (hnil : take [] = none)
    (hls : ∀ l ∈ ls, '\r' ∉ l) :
    (Text.lines (ls.flatMap (· ++ ['\n']))).filterMap take =
      ls.flatMap fun l => (Text.lines l).filterMap take := by
  induction ls with
  | nil => rfl
  | cons l ls ih =>
    rw [List.forall_mem_cons] at hls
    have hrest : '\r' ∉ ls.flatMap (· ++ ['\n']) := by
      intro hmem
      obtain ⟨l', hl', hmem⟩ := List.mem_flatMap.mp hmem
      rcases List.mem_append.mp hmem with hmem | hmem
      · exact hls.2 l' hl' hmem
      · exact absurd hmem (by decide)
    rw [List.flatMap_cons, List.flatMap_cons, List.append_assoc, List.singleton_append,
      Text.lines_append_newline hls.1 hrest, List.filterMap_append, ih hls.2,
      Text.filterMap_lines_newline hls.1 hnil]

theorem objects_stream (hls : ∀ l ∈ ls, '\r' ∉ l) :
    (objects (stream ls)).filterMap f = ls.flatMap (lineFindings f) := by
  have hnil : object? [] = none := rfl
  rw [objects, stream, String.toList_ofList, filterMap_lines_stream hnil hls, List.filterMap_flatMap]
  congr
  funext l
  rw [lineFindings, objects, String.toList_ofList]

/-! ### A line that is a record -/

theorem isBlank_of_isLineBreak {c : Char} (h : Text.isLineBreak c = true) : Text.isBlank c = true := by
  simp only [Text.isLineBreak, Text.isBlank, Bool.or_eq_true, Bool.and_eq_true, decide_eq_true_eq,
    beq_iff_eq] at h ⊢
  omega

/-- The line feed and the carriage return are the only breaks that may stand between tokens. -/
theorem not_isGap_of_isLineBreak {c : Char} (h : Text.isLineBreak c = true) (hfeed : c ≠ '\n')
    (hreturn : c ≠ '\r') : ¬ Json.IsGap c := by
  rintro (rfl | rfl | rfl | rfl)
  · exact absurd h (by decide)
  · exact absurd h (by decide)
  · exact hfeed rfl
  · exact hreturn rfl

/-- No break of a record may stand between its tokens. -/
theorem not_isGap_of_mem {b : Char} (hfeed : '\n' ∉ l) (hreturn : '\r' ∉ l) (hb : b ∈ l)
    (hbreak : Text.isLineBreak b = true) : ¬ Json.IsGap b := by
  apply not_isGap_of_isLineBreak hbreak
  · exact fun heq => hfeed (heq ▸ hb)
  · exact fun heq => hreturn (heq ▸ hb)

theorem mem_inlineBreaks {c : Char} (h : Text.isLineBreak c = true) (hlow : 0x20 ≤ c.toNat) :
    c ∈ inlineBreaks := by
  have hcode : c.toNat = 0x85 ∨ c.toNat = 0x2028 ∨ c.toNat = 0x2029 := by
    simp only [Text.isLineBreak, Bool.or_eq_true, Bool.and_eq_true, decide_eq_true_eq,
      beq_iff_eq] at h
    omega
  rw [← Char.ofNat_toNat c]
  rcases hcode with hcode | hcode | hcode <;> rw [hcode] <;> decide

/-- Other breaks than these three cannot be in a record. -/
theorem isUnbroken_iff_isWhole (h : record? l = some v) (hfeed : '\n' ∉ l) (hreturn : '\r' ∉ l) :
    Text.IsUnbroken l ↔ IsWhole l := by
  rw [record?, Option.filter_eq_some_iff] at h
  constructor
  · intro hl c hc hmem
    have hbreaks : inlineBreaks.all Text.isLineBreak = true := by decide
    have hbreak := List.all_eq_true.mp hbreaks c hc
    rw [hl c hmem] at hbreak
    cases hbreak
  · intro hl c hc
    cases hbreak : Text.isLineBreak c with
    | false => rfl
    | true =>
      have hgap := not_isGap_of_mem hfeed hreturn hc hbreak
      obtain ⟨pre, post, rfl⟩ := List.append_of_mem hc
      have hlow := Json.le_toNat_of_break h.1 (isBlank_of_isLineBreak hbreak) hgap
      exact absurd hc (hl c (mem_inlineBreaks hbreak hlow))

/-- A record without a break is the object that is read of its line. -/
theorem filterMap_lines_of_unbroken (h : record? l = some v) (hl : Text.IsUnbroken l) :
    (Text.lines l).filterMap object? = [v] := by
  have hne : l ≠ [] := by
    rintro rfl
    cases h
  rw [Text.lines_eq_of_unbroken hl hne, List.filterMap_cons_some (object?_of_record? h),
    List.filterMap_nil]

theorem lineFindings_of_unbroken (h : record? l = some v) (hl : Text.IsUnbroken l) :
    lineFindings f l = (f v).toList := by
  rw [lineFindings, objects, String.toList_ofList, filterMap_lines_of_unbroken h hl]
  cases hv : f v with
  | none => rw [List.filterMap_cons_none hv]; rfl
  | some x => rw [List.filterMap_cons_some hv]; rfl

/-- A record with a break gives nothing, if a finding needs a key with a character that no constant and
no number holds. -/
theorem lineFindings_of_broken {x : Char} (hword : Json.isWordChar x = true) (hx : x ∉ Json.wordChars)
    (hkey : ∀ w : Json.Value, w.Avoids x → f w = none) (hfeed : '\n' ∉ l) (hreturn : '\r' ∉ l)
    (h : record? l = some v) (hl : ¬ Text.IsUnbroken l) : lineFindings f l = [] := by
  rw [record?, Option.filter_eq_some_iff] at h
  have hpieces : ∀ piece ∈ Text.lines l, ∀ w, object? piece = some w → f w = none := by
    intro piece hpiece w hw
    rw [object?_eq, record?, Option.filter_eq_some_iff] at hw
    rcases Text.mem_lines_cases hreturn hpiece with ⟨post, hsplit, hunbroken, rfl | ⟨b, r, rfl, hb⟩⟩ |
      ⟨pre, b, post, hsplit, hb⟩
    · rw [hsplit, List.append_nil] at hl
      exact absurd hunbroken hl
    · have hgap := not_isGap_of_mem hfeed hreturn (by simp [hsplit]) hb
      rw [hsplit] at h
      have hnone := Json.parse?_before_break h.1 (isBlank_of_isLineBreak hb) hgap
      rw [hnone] at hw
      cases hw.1
    · have hgap := not_isGap_of_mem hfeed hreturn (by simp [hsplit]) hb
      rw [hsplit] at h
      exact hkey w (Json.avoids_of_behind_break hword hx h.1 (isBlank_of_isLineBreak hb) hgap hw.1)
  rw [lineFindings, objects, String.toList_ofList, List.filterMap_eq_nil_iff]
  intro w hw
  obtain ⟨piece, hpiece, hobject⟩ := List.mem_filterMap.mp hw
  exact hpieces piece hpiece w hobject

theorem lineFindings_of_noise (h : IsNoise l) : lineFindings f l = [] := by
  have hnone : (Text.lines l).filterMap object? = [] := List.filterMap_eq_nil_iff.mpr h
  rw [lineFindings, objects, String.toList_ofList, hnone, List.filterMap_nil]

/-! ### Parts that are missing -/

variable {β : Type} {g h : α → List β} {xs : List α}

theorem sublist_flatMap (hparts : ∀ a ∈ xs, g a = h a ∨ g a = []) :
    List.Sublist (xs.flatMap g) (xs.flatMap h) := by
  induction xs with
  | nil => exact List.Sublist.refl _
  | cons a xs ih =>
    rw [List.forall_mem_cons] at hparts
    rw [List.flatMap_cons, List.flatMap_cons]
    refine List.Sublist.append ?_ (ih hparts.2)
    rcases hparts.1 with heq | hnil
    · rw [heq]
    · rw [hnil]
      exact List.nil_sublist _

/-- Where each part is there or missing, nothing is missing from the whole only if all parts are there. -/
theorem flatMap_eq_flatMap_iff (hparts : ∀ a ∈ xs, g a = h a ∨ g a = []) :
    xs.flatMap g = xs.flatMap h ↔ ∀ a ∈ xs, g a = h a := by
  constructor
  · intro heq
    induction xs with
    | nil => exact fun a ha => absurd ha List.not_mem_nil
    | cons a xs ih =>
      rw [List.forall_mem_cons] at hparts ⊢
      rw [List.flatMap_cons, List.flatMap_cons] at heq
      rcases hparts.1 with hsame | hnil
      · rw [hsame] at heq
        exact ⟨hsame, ih hparts.2 (List.append_cancel_left heq)⟩
      · -- what is missing here cannot be made up for later
        have hlength := (sublist_flatMap hparts.2).length_le
        rw [hnil, List.nil_append] at heq
        rw [heq, List.length_append] at hlength
        have hempty : h a = [] := List.length_eq_zero_iff.mp (by omega)
        rw [hempty, List.nil_append] at heq
        exact ⟨hnil.trans hempty.symm, ih hparts.2 heq⟩
  · intro hall
    exact List.flatMap_congr hall

end Report

namespace Scanner

open Report

/-- The objects that are reported as secrets: those that name a detector and lie outside version
control. -/
def Trufflehog.Reports (v : Json.Value) : Prop :=
  (v.field "DetectorName").text ≠ "" ∧
    isVersionControl (((v.field "SourceMetadata").field "Data").field "Filesystem" |>.field "file").text =
      false

/-- The objects that are reported as vulnerabilities: those with a finding that names one. -/
def Govulncheck.Reports (v : Json.Value) : Prop := ((v.field "finding").field "osv").text ≠ ""

/-- The scanners whose report is a stream of objects, each with its reading of one object and with the
objects that it reports. -/
def streamScanners : List (Scanner × (Json.Value → Option RawFinding) × (Json.Value → Prop)) :=
  [(trufflehog, Trufflehog.finding?, Trufflehog.Reports),
    (govulncheck, Govulncheck.finding?, Govulncheck.Reports)]

theorem Trufflehog.isSome_finding?_iff (v : Json.Value) : (finding? v).isSome = true ↔ Reports v := by
  rw [finding?, Reports]
  split
  next h => exact iff_of_false (by decide) fun hreports => h.elim hreports.1 (by simp [hreports.2])
  next h => exact iff_of_true rfl ⟨fun hempty => h (.inl hempty), by simpa using fun hfile => h (.inr hfile)⟩

theorem Govulncheck.isSome_finding?_iff (v : Json.Value) : (finding? v).isSome = true ↔ Reports v := by
  rw [finding?, Reports]
  dsimp only
  split
  next h => exact iff_of_false (by decide) fun hreports => hreports h
  next h => exact iff_of_true rfl h

/-- What the scanners of streams have in common: they read object by object, and what they report has a
key with a character that no constant and no number holds. -/
theorem streamScanners_cases {scanner : Scanner} {f : Json.Value → Option RawFinding}
    {reports : Json.Value → Prop} (h : (scanner, f, reports) ∈ streamScanners) :
    (∀ report, scanner.read report = .ok ((objects report).filterMap f)) ∧
      (∀ v, (f v).isSome = true ↔ reports v) ∧
      ∃ x, Json.isWordChar x = true ∧ x ∉ Json.wordChars ∧ ∀ w : Json.Value, w.Avoids x → f w = none := by
  simp only [streamScanners, List.mem_cons, Prod.mk.injEq, List.not_mem_nil, or_false] at h
  rcases h with ⟨rfl, rfl, rfl⟩ | ⟨rfl, rfl, rfl⟩
  · refine ⟨fun report => rfl, Trufflehog.isSome_finding?_iff, 'D', by decide, by decide, ?_⟩
    intro w hw
    have hkey : w.field "DetectorName" = .null := hw.field (by decide)
    rw [← Option.not_isSome_iff_eq_none, Trufflehog.isSome_finding?_iff, Trufflehog.Reports, hkey]
    exact fun hreports => hreports.1 rfl
  · refine ⟨fun report => rfl, Govulncheck.isSome_finding?_iff, 'd', by decide, by decide, ?_⟩
    intro w hw
    have hkey : w.field "finding" = .null := hw.field (by decide)
    rw [← Option.not_isSome_iff_eq_none, Govulncheck.isSome_finding?_iff, Govulncheck.Reports, hkey]
    exact fun hreports => hreports rfl

section Stream

variable {scanner : Scanner} {f : Json.Value → Option RawFinding} {reports : Json.Value → Prop}
  {l : List Char} {v : Json.Value}

/-- A record gives its finding if no break is in it, and otherwise nothing. -/
theorem lineFindings_of_record (hscanner : (scanner, f, reports) ∈ streamScanners)
    (hl : '\n' ∉ l ∧ '\r' ∉ l) (hv : record? l = some v) :
    lineFindings f l = if IsWhole l then (f v).toList else [] := by
  obtain ⟨-, -, x, hword, hx, hkey⟩ := streamScanners_cases hscanner
  have hwhole := isUnbroken_iff_isWhole hv hl.1 hl.2
  split
  next h => exact lineFindings_of_unbroken hv (hwhole.mpr h)
  next h => exact lineFindings_of_broken hword hx hkey hl.1 hl.2 hv (mt hwhole.mp h)

/-- A line gives what it should or nothing. -/
theorem lineFindings_cases (hscanner : (scanner, f, reports) ∈ streamScanners)
    (hl : '\n' ∉ l ∧ '\r' ∉ l) (hline : (record? l).isSome = true ∨ IsNoise l) :
    lineFindings f l = recordFindings f l ∨ lineFindings f l = [] := by
  rcases hline with hsome | hnoise
  · obtain ⟨v, hv⟩ := Option.isSome_iff_exists.mp hsome
    rw [lineFindings_of_record hscanner hl hv, recordFindings, hv, Option.bind_some]
    split
    · exact .inl rfl
    · exact .inr rfl
  · exact .inr (lineFindings_of_noise hnoise)

/-- A line gives what it should unless it is a record that is reported and has a break in it. -/
theorem lineFindings_eq_recordFindings_iff (hscanner : (scanner, f, reports) ∈ streamScanners)
    (hl : '\n' ∉ l ∧ '\r' ∉ l) (hline : (record? l).isSome = true ∨ IsNoise l) :
    lineFindings f l = recordFindings f l ↔ ∀ v, record? l = some v → reports v → IsWhole l := by
  obtain ⟨-, hreports, -⟩ := streamScanners_cases hscanner
  rw [recordFindings]
  cases hv : record? l with
  | none =>
    have hnoise := hline.resolve_left (by rw [hv]; decide)
    exact iff_of_true (lineFindings_of_noise hnoise) fun v hv => by cases hv
  | some v =>
    rw [lineFindings_of_record hscanner hl hv, Option.bind_some]
    constructor
    · rintro hfound w hw hreport
      obtain rfl := Option.some.inj hw
      by_contra hbroken
      rw [if_neg hbroken] at hfound
      obtain ⟨finding, hfinding⟩ := Option.isSome_iff_exists.mp ((hreports v).mpr hreport)
      rw [hfinding] at hfound
      cases hfound
    · intro hall
      split
      next => rfl
      next hbroken =>
        cases hf : f v with
        | none => rfl
        | some finding =>
          have hreport := (hreports v).mp (by rw [hf]; rfl)
          exact absurd (hall v rfl hreport) hbroken

end Stream

/-- **When a stream is read without loss.** A stream is read line by line. A line that is a record gives
exactly its finding, if it has none of the breaks U+0085, U+2028 and U+2029 in it, and otherwise nothing;
a line of which no part is an object is noise. So of a stream of records and noise exactly the findings
of the records are read, in the order of the lines, if and only if no record that is reported has such a
break in it. -/
theorem records_kept_iff {scanner : Scanner} {f : Json.Value → Option RawFinding}
    {reports : Json.Value → Prop} (hscanner : (scanner, f, reports) ∈ streamScanners)
    {ls : List (List Char)} (hls : ∀ l ∈ ls, '\n' ∉ l ∧ '\r' ∉ l) :
    scanner.read (stream ls) = .ok (ls.flatMap (lineFindings f)) ∧
      (∀ v, (f v).isSome = true ↔ reports v) ∧
      (∀ l ∈ ls, ∀ v, record? l = some v →
        lineFindings f l = if IsWhole l then (f v).toList else []) ∧
      (∀ l ∈ ls, HoldsNoObject l → IsNoise l) ∧
      ((∀ l ∈ ls, (record? l).isSome = true ∨ IsNoise l) →
        (scanner.read (stream ls) = .ok (ls.flatMap (recordFindings f)) ↔
          ∀ l ∈ ls, ∀ v, record? l = some v → reports v → IsWhole l)) := by
  obtain ⟨hread, hreports, -⟩ := streamScanners_cases hscanner
  have hstream : scanner.read (stream ls) = .ok (ls.flatMap (lineFindings f)) := by
    rw [hread, objects_stream fun l hl => (hls l hl).2]
  refine ⟨hstream, hreports, fun l hl v hv => lineFindings_of_record hscanner (hls l hl) hv,
    fun l hl hnone => hnone.isNoise (hls l hl).2, fun hlines => ?_⟩
  have hparts : ∀ l ∈ ls, lineFindings f l = recordFindings f l ∨ lineFindings f l = [] :=
    fun l hl => lineFindings_cases hscanner (hls l hl) (hlines l hl)
  rw [hstream, Except.ok.injEq, flatMap_eq_flatMap_iff hparts]
  exact forall₂_congr fun l hl =>
    lineFindings_eq_recordFindings_iff hscanner (hls l hl) (hlines l hl)

/-- A stream of noise, a record that is reported and a record with U+2028 that is not to be reported. -/
theorem records_kept_iff_progress :
    let ls := ["50% \u2028 done".toList, " \x7b\"DetectorName\": \"AWS\", \"Raw\": \"\\u2028\"\x7d".toList,
      "\x7b\"DetectorName\": \"\", \"Raw\": \"\u2028\"\x7d".toList]
    ((trufflehog, Trufflehog.finding?, Trufflehog.Reports) ∈ streamScanners ∧
      (∀ l ∈ ls, '\n' ∉ l ∧ '\r' ∉ l) ∧ ∀ l ∈ ls, (record? l).isSome = true ∨ IsNoise l) ∧
      trufflehog.read (stream ls) = .ok (ls.flatMap (recordFindings Trufflehog.finding?)) ∧
      ls.flatMap (recordFindings Trufflehog.finding?) =
        [⟨"", "Secret detected: AWS", "high", none, some "AWS"⟩] := by
  intro ls
  have hscanner : (trufflehog, Trufflehog.finding?, Trufflehog.Reports) ∈ streamScanners := .head _
  have hls : ∀ l ∈ ls, '\n' ∉ l ∧ '\r' ∉ l := by decide +kernel
  have hlines : ∀ l ∈ ls, (record? l).isSome = true ∨ IsNoise l := by decide +kernel
  have hkept : ∀ l ∈ ls, IsWhole l ∨ (record? l).bind Trufflehog.finding? = none := by
    decide +kernel
  obtain ⟨-, hreports, -, -, hiff⟩ := records_kept_iff hscanner hls
  refine ⟨⟨hscanner, hls, hlines⟩, (hiff hlines).mpr ?_, by decide +kernel⟩
  intro l hl v hv hreport
  refine (hkept l hl).resolve_right fun hnone => ?_
  rw [hv, Option.bind_some] at hnone
  have hsome := (hreports v).mpr hreport
  rw [hnone] at hsome
  cases hsome

/-- A record on a line of its own that names a detector and is not reported. -/
theorem record_lost :
    let l := "\x7b\"DetectorName\": \"AWS\", \"Raw\": \"a\u2028b\"\x7d".toList
    ('\n' ∉ l ∧ '\r' ∉ l ∧ (record? l).isSome = true) ∧
      recordFindings Trufflehog.finding? l = [⟨"", "Secret detected: AWS", "high", none, some "AWS"⟩] ∧
      trufflehog.read (stream [l]) = .ok [] := by
  intro l
  have hnothing : Trufflehog.findings (stream [l]) = [] := by decide +kernel
  refine ⟨by decide +kernel, by decide +kernel, ?_⟩
  show Except.ok (Trufflehog.findings (stream [l])) = .ok []
  rw [hnothing]

end Scanner

end RepoAudit
