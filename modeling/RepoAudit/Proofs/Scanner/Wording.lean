import RepoAudit.Proofs.Aggregate
import RepoAudit.Proofs.Path.Below
import RepoAudit.Registry

/-!
# Findings that say something

Collecting drops a finding whose description is empty, and what is made of the collected findings holds
no others. The scanners make descriptions from fields of
the items of their reports, and any of these may be missing, be empty or be no text. Two scanners pass
over such items. Six others put fixed words around the fields, a colon for instance, and then the
description is not empty when there is nothing between the words.

* `Report.Wordless`, `Report.Quotes` — no field of an item is a text with anything in it; a description
  has such a text in it;
* `Report.Worded` — a description that quotes one of its fields, or is only the words around them, with
  one lemma for each way in which a description is put together;
* `Wording` — how a scanner makes findings from items; `wordings` — the wordings of all scanners;
* `Wording.isSound_of_mem_wordings` — the scanners read their reports in this way;
* `Wording.Gathers` — what the collection and the whole aggregation have in common: both look at the
  complete raw findings, and keep one finding of each key at least and no others;
* `Wording.aggregate_wording` — **items without a word leave no trace and every finding quotes its item, if
  and only if there are no fixed words or no such item names a file**;
* `Wording.filler_reported` — a row of nothing but nulls that is reported.
-/

namespace RepoAudit

/-! ### Descriptions and their fields -/

namespace Report

variable {v : Json.Value} {vs ws : List Json.Value} {a b d e : String}

/-- None of some fields is a text with anything in it: each is missing, empty or no text. -/
def Wordless (vs : List Json.Value) : Prop := ∀ v ∈ vs, ∀ s, v = .string s → s = ""

/-- A description has a field in it that is a text and not empty. -/
def Quotes (d : String) (vs : List Json.Value) : Prop :=
  ∃ v ∈ vs, ∃ s, v = .string s ∧ s ≠ "" ∧ s.toList <:+: d.toList

/-- A description made from fields: it quotes one of them and says more than the words around them, or it
is only these words. -/
structure Worded (vs : List Json.Value) (filler d : String) : Prop where
  quotes : ¬ Wordless vs → Quotes d vs
  longer : ¬ Wordless vs → filler.length < d.length
  filled : Wordless vs → d = filler

theorem wordless_singleton : Wordless [v] ↔ v.text = "" := by
  rw [Wordless, List.forall_mem_singleton]
  cases v with
  | string s => simp [Json.Value.text]
  | _ => simp [Json.Value.text]

theorem Wordless.text_eq (h : Wordless vs) (hv : v ∈ vs) : v.text = "" :=
  wordless_singleton.mp (List.forall_mem_singleton.mpr (h v hv))

theorem Wordless.not_quotes (h : Wordless vs) : ¬ Quotes d vs := by
  rintro ⟨v, hv, s, hs, hne, -⟩
  exact hne (h v hv s hs)

theorem wordless_append : Wordless (vs ++ ws) ↔ Wordless vs ∧ Wordless ws := List.forall_mem_append

theorem Quotes.mono (h : Quotes d vs) (hvs : vs ⊆ ws) (hd : d.toList <:+: e.toList) : Quotes e ws := by
  obtain ⟨v, hv, s, hs, hne, hd'⟩ := h
  exact ⟨v, hvs hv, s, hs, hne, hd'.trans hd⟩

theorem quotes_text (h : v.text ≠ "") : Quotes v.text [v] := by
  cases v with
  | string s => exact ⟨_, List.mem_singleton_self _, s, rfl, h, List.infix_refl _⟩
  | _ => exact absurd rfl h

theorem length_pos_of_ne (h : d ≠ "") : ("" : String).length < d.length :=
  Nat.pos_of_ne_zero (mt String.length_eq_zero_iff.mp h)

theorem Quotes.ne_empty (h : Quotes d vs) : d ≠ "" := by
  rintro rfl
  obtain ⟨v, -, s, -, hne, hinfix⟩ := h
  exact hne (String.toList_inj.mp (List.infix_nil.mp hinfix))

/-- A description that quotes one of its fields, with no words that could stand alone. -/
theorem Quotes.worded (h : Quotes d vs) : Worded vs "" d where
  quotes _ := h
  longer _ := length_pos_of_ne h.ne_empty
  filled hnone := absurd h hnone.not_quotes

/-- No description is shorter than the words around its fields. -/
theorem Worded.length_le (h : Worded vs a d) : a.length ≤ d.length := by
  by_cases hnone : Wordless vs
  · rw [h.filled hnone]
  · exact (h.longer hnone).le

/-- Words that are always there. -/
theorem Worded.fixed (t : String) : Worded [] t t where
  quotes h := absurd (List.forall_mem_nil _) h
  longer h := absurd (List.forall_mem_nil _) h
  filled _ := rfl

/-- The text of one field. -/
theorem Worded.text (v : Json.Value) : Worded [v] "" v.text where
  quotes h := quotes_text (mt wordless_singleton.mpr h)
  longer h := length_pos_of_ne (mt wordless_singleton.mpr h)
  filled h := wordless_singleton.mp h

/-- One description after another. -/
theorem Worded.append (hd : Worded vs a d) (he : Worded ws b e) :
    Worded (vs ++ ws) (a ++ b) (d ++ e) where
  quotes h := by
    rw [wordless_append, not_and_or] at h
    rcases h with h | h
    · refine (hd.quotes h).mono (List.subset_append_left _ _) ?_
      rw [String.toList_append]
      exact (List.prefix_append _ _).isInfix
    · refine (he.quotes h).mono (List.subset_append_right _ _) ?_
      rw [String.toList_append]
      exact (List.suffix_append _ _).isInfix
  longer h := by
    have hd_le := hd.length_le
    have he_le := he.length_le
    rw [wordless_append, not_and_or] at h
    rw [String.length_append, String.length_append]
    rcases h with h | h
    · have hd_lt := hd.longer h
      omega
    · have he_lt := he.longer h
      omega
  filled h := by
    rw [wordless_append] at h
    rw [hd.filled h.1, he.filled h.2]

/-- The text of one field, or of another in its absence. -/
theorem Worded.orElse (v w : Json.Value) : Worded [v, w] "" (if v.text = "" then w.text else v.text) := by
  have hboth := (Worded.text v).append (Worded.text w)
  by_cases h : v.text = ""
  · rw [if_pos h]
    rwa [h, String.empty_append, String.empty_append] at hboth
  · rw [if_neg h]
    exact ((quotes_text h).mono (by simp) (List.infix_refl _)).worded

/-- A title and details, with a colon between them only if both are there. -/
theorem Worded.titled (v w : Json.Value) : Worded [v, w] "" (Report.titled v.text w.text) := by
  rw [Report.titled]
  split
  next h =>
    have hboth := ((Worded.text v).append (.fixed ": ")).append (.text w)
    exact (hboth.quotes fun hnone => h.1 (hnone.text_eq (.head _))).worded
  next h =>
    have hor := Worded.orElse v w
    split
    next hv => rwa [if_neg hv] at hor
    next hv => rwa [if_pos (not_not.mp hv)] at hor

/-- A package and its version. -/
theorem Worded.package (v : Json.Value) :
    Worded [v.field "name", v.field "version"] "@" (Report.package v) := by
  have hparts := ((Worded.text (v.field "name")).append (.fixed "@")).append (.text (v.field "version"))
  rwa [String.empty_append, String.append_empty] at hparts

/-- A label and a text with a colon between them. -/
theorem Worded.labelled (hd : Worded vs a d) (he : Worded ws b e) :
    Worded (vs ++ ws) (a ++ ": " ++ b) (d ++ ": " ++ e) := by
  have hparts := (hd.append (.fixed ": ")).append he
  rwa [List.append_nil] at hparts

/-- The text of a field behind words, if it is there. -/
theorem Worded.prefixed (t : String) (h : v.text ≠ "") : Worded [v] "" (t ++ v.text) := by
  have hparts := (Worded.fixed t).append (.text v)
  exact (hparts.quotes (mt wordless_singleton.mp h)).worded

end Report

/-! ### Wordings -/

open Report

/-- How a scanner makes its findings: from the items of its reports, with descriptions that are made from
some fields of an item and the words around them. The filler is what these words say when they stand
alone; it is empty if there are none, or if an item with nothing in these fields gives no finding. -/
structure Wording where
  scanner : Scanner
  Item : Type
  items : String → List Item
  sources : Item → List Json.Value
  finding? : Item → Option RawFinding
  filler : String

namespace Wording

/-- The scanner reads its reports item by item, and its descriptions are made from the fields. -/
structure IsSound (w : Wording) : Prop where
  reads : ∀ report, w.scanner.read report = .ok ((w.items report).filterMap w.finding?)
  worded : ∀ item raw, w.finding? item = some raw → Worded (w.sources item) w.filler raw.description

/-- The wording of a scanner that makes a finding of every item. -/
def ofItems {α : Type} (scanner : Scanner) (items : String → List α) (sources : α → List Json.Value)
    (finding : α → RawFinding) (filler : String) : Wording where
  scanner := scanner
  Item := α
  items := items
  sources := sources
  finding? item := some (finding item)
  filler := filler

theorem isSound_ofItems {α : Type} {scanner : Scanner} {items : String → List α}
    {sources : α → List Json.Value} {finding : α → RawFinding} {filler : String}
    (hreads : ∀ report, scanner.read report = .ok ((items report).map finding))
    (hworded : ∀ item, Worded (sources item) filler (finding item).description) :
    (ofItems scanner items sources finding filler).IsSound where
  reads report :=
    (hreads report).trans (congrArg Except.ok (congrFun List.filterMap_eq_map.symm (items report)))
  worded item raw h := by
    obtain rfl := Option.some.inj h
    exact hworded item

/-! ### Scanners of source code -/

def semgrep : Wording :=
  ofItems Scanner.semgrep (fun report => ((document report).field "results").objects)
    (fun result => [(result.field "extra").field "message"]) Scanner.Semgrep.finding ""

theorem isSound_semgrep : semgrep.IsSound :=
  isSound_ofItems (fun _ => rfl) fun _ => .text _

def bandit : Wording :=
  ofItems Scanner.bandit
    (fun report =>
      ((document (String.ofList (Scanner.Bandit.fromBrace report.toList))).field "results").objects)
    (fun result => [result.field "issue_text"]) Scanner.Bandit.finding ""

theorem isSound_bandit : bandit.IsSound :=
  isSound_ofItems (fun _ => rfl) fun _ => .text _

def brakeman : Wording :=
  ofItems Scanner.brakeman (fun report => ((document report).field "warnings").objects)
    (fun warning => [warning.field "warning_type", warning.field "message"])
    Scanner.Brakeman.finding ": "

theorem isSound_brakeman : brakeman.IsSound :=
  isSound_ofItems (fun _ => rfl) fun _ => .labelled (.text _) (.text _)

/-! ### Scanners of secrets -/

/-- What trivy reports of a target. -/
inductive TrivyKind where
  | vulnerability
  | secret
  | misconfiguration
  deriving Repr, DecidableEq

namespace TrivyKind

/-- Where a target lists its problems of a kind. -/
def key : TrivyKind → String
  | vulnerability => "Vulnerabilities"
  | secret => "Secrets"
  | misconfiguration => "Misconfigurations"

/-- The finding of a problem in a file. -/
def finding : TrivyKind → String → Json.Value → RawFinding
  | vulnerability => Scanner.Trivy.vulnerability
  | secret => Scanner.Trivy.secret
  | misconfiguration => Scanner.Trivy.misconfiguration

/-- The fields that describe a problem. -/
def sources : TrivyKind → Json.Value → List Json.Value
  | vulnerability, problem => [problem.field "Title", problem.field "Description"]
  | secret, problem => [problem.field "Title"]
  | misconfiguration, problem => [problem.field "Title", problem.field "Message"]

theorem worded (kind : TrivyKind) (file : String) (problem : Json.Value) :
    Worded (kind.sources problem) "" (kind.finding file problem).description := by
  cases kind with
  | vulnerability => exact .titled _ _
  | secret => exact .text _
  | misconfiguration => exact .titled _ _

/-- The problems of a target, each with its kind and its file. -/
def problems (target : Json.Value) : List (TrivyKind × String × Json.Value) :=
  [vulnerability, secret, misconfiguration].flatMap fun kind =>
    (target.field kind.key).objects.map fun problem => (kind, (target.field "Target").text, problem)

theorem map_problems (target : Json.Value) :
    (problems target).map (fun (kind, file, problem) => kind.finding file problem) =
      Scanner.Trivy.targetFindings target := by
  simp [problems, Scanner.Trivy.targetFindings, key, finding, Function.comp_def]

end TrivyKind

def trivy : Wording :=
  ofItems Scanner.trivy
    (fun report => ((document report).field "Results").objects.flatMap TrivyKind.problems)
    (fun (kind, _, problem) => kind.sources problem)
    (fun (kind, file, problem) => kind.finding file problem) ""

theorem isSound_trivy : trivy.IsSound := by
  refine isSound_ofItems (fun report => ?_) fun (kind, file, problem) => kind.worded file problem
  rw [List.map_flatMap]
  simp only [TrivyKind.map_problems]
  rfl

def gitleaks : Wording :=
  ofItems Scanner.gitleaks (fun report => (document report).objects)
    (fun leak => [leak.field "Description"]) Scanner.Gitleaks.finding ""

theorem isSound_gitleaks : gitleaks.IsSound :=
  isSound_ofItems (fun _ => rfl) fun _ => .text _

/-- An object without the name of a detector gives no finding. -/
def trufflehog : Wording where
  scanner := Scanner.trufflehog
  Item := Json.Value
  items := objects
  sources object := [object.field "DetectorName"]
  finding? := Scanner.Trufflehog.finding?
  filler := ""

theorem isSound_trufflehog : trufflehog.IsSound where
  reads _ := rfl
  worded (object : Json.Value) raw h := by
    change Scanner.Trufflehog.finding? object = some raw at h
    rw [Scanner.Trufflehog.finding?] at h
    split at h
    · cases h
    · next hnamed =>
      obtain rfl := Option.some.inj h
      exact .prefixed "Secret detected: " (by tauto)

/-- An object without the name of a vulnerability gives no finding. -/
def govulncheck : Wording where
  scanner := Scanner.govulncheck
  Item := Json.Value
  items := objects
  sources object := [(object.field "finding").field "osv"]
  finding? := Scanner.Govulncheck.finding?
  filler := ""

theorem isSound_govulncheck : govulncheck.IsSound where
  reads _ := rfl
  worded (object : Json.Value) raw h := by
    change Scanner.Govulncheck.finding? object = some raw at h
    rw [Scanner.Govulncheck.finding?] at h
    dsimp only at h
    split at h
    · cases h
    · next hnamed =>
      obtain rfl := Option.some.inj h
      exact .prefixed "Go vulnerability: " hnamed

/-! ### Scanners of dependencies -/

def pipAudit : Wording :=
  ofItems Scanner.pipAudit
    (fun report => ((document report).field "dependencies").objects.flatMap fun dependency =>
      (dependency.field "vulns").objects.map fun vulnerability => (dependency, vulnerability))
    (fun (dependency, vulnerability) => [dependency.field "name", dependency.field "version",
      vulnerability.field "description", vulnerability.field "id"])
    (fun (dependency, vulnerability) => Scanner.PipAudit.finding dependency vulnerability) "@: "

theorem isSound_pipAudit : pipAudit.IsSound := by
  refine isSound_ofItems (fun report => ?_) fun _ => .labelled (.package _) (.orElse _ _)
  simp only [List.map_flatMap, List.map_map, Function.comp_def]
  rfl

/-- A row has five columns; a shorter one gives no finding. -/
def safety : Wording where
  scanner := Scanner.safety
  Item := Json.Value
  items report := (document report).items
  sources row :=
    match row.items with
    | package :: _ :: _ :: advisory :: _ => [package, advisory]
    | _ => []
  finding? := Scanner.Safety.finding?
  filler := ": "

theorem isSound_safety : safety.IsSound where
  reads _ := rfl
  worded (row : Json.Value) raw h := by
    change Scanner.Safety.finding? row = some raw at h
    rw [Scanner.Safety.finding?] at h
    split at h
    · next package _ _ advisory _ _ hrow =>
      obtain rfl := Option.some.inj h
      simp only [safety, hrow]
      exact .labelled (.text _) (.text _)
    · cases h

/-- The key of an entry stands in for its name. -/
def npmAudit : Wording :=
  ofItems Scanner.npmAudit
    (fun report => (((document report).field "vulnerabilities").fields).mergeSort fun a b =>
      Text.le a.1 b.1)
    (fun (key, vulnerability) => [vulnerability.field "name", .string key])
    (fun (key, vulnerability) => Scanner.NpmAudit.finding key vulnerability) "Vulnerability in "

theorem isSound_npmAudit : npmAudit.IsSound :=
  isSound_ofItems (fun _ => rfl) fun (key, vulnerability) =>
    (Worded.fixed "Vulnerability in ").append (.orElse (vulnerability.field "name") (.string key))

/-- The fields that describe an advisory about a package. -/
def advisorySources (packageKey : String) (item : Json.Value) : List Json.Value :=
  [(item.field packageKey).field "name", (item.field packageKey).field "version",
    (item.field "advisory").field "title"]

def cargoAudit : Wording :=
  ofItems Scanner.cargoAudit
    (fun report => (((document report).field "vulnerabilities").field "list").objects)
    (advisorySources "package") (Scanner.advisoryFinding "Cargo.toml" "package") "@: "

theorem isSound_cargoAudit : cargoAudit.IsSound :=
  isSound_ofItems (fun _ => rfl) fun _ => .labelled (.package _) (.text _)

def bundlerAudit : Wording :=
  ofItems Scanner.bundlerAudit (fun report => ((document report).field "results").objects)
    (advisorySources "gem") (Scanner.advisoryFinding "Gemfile.lock" "gem") "@: "

theorem isSound_bundlerAudit : bundlerAudit.IsSound :=
  isSound_ofItems (fun _ => rfl) fun _ => .labelled (.package _) (.text _)

/-! ### All scanners -/

/-- The wordings of all scanners of this library. -/
def wordings : List Wording :=
  [trivy, semgrep, trufflehog, gitleaks, govulncheck, bandit, pipAudit, safety, npmAudit, cargoAudit,
    bundlerAudit, brakeman]

theorem map_scanner_wordings :
    wordings.map scanner = Registry.standard.entries.map Registration.scanner := rfl

theorem isSound_of_mem_wordings {w : Wording} (h : w ∈ wordings) : w.IsSound := by
  simp only [wordings, List.mem_cons, List.not_mem_nil, or_false] at h
  rcases h with rfl | rfl | rfl | rfl | rfl | rfl | rfl | rfl | rfl | rfl | rfl | rfl
  · exact isSound_trivy
  · exact isSound_semgrep
  · exact isSound_trufflehog
  · exact isSound_gitleaks
  · exact isSound_govulncheck
  · exact isSound_bandit
  · exact isSound_pipAudit
  · exact isSound_safety
  · exact isSound_npmAudit
  · exact isSound_cargoAudit
  · exact isSound_bundlerAudit
  · exact isSound_brakeman

/-! ### What aggregation makes of them -/

variable {w : Wording} {newId : Nat → String} {repo : String} {items before after : List w.Item}
  {item : w.Item} {raw : RawFinding} {f : Finding}
  {gather : (Nat → String) → List ToolResult → List Finding}

open Finding (aggregate completeRaws collect isComplete ofRaw)

/-- What a run of the scanner on a repository comes to that reports these items. -/
def resultOf (w : Wording) (repo : String) (items : List w.Item) : ToolResult where
  tool := w.scanner.name
  findings := (items.filterMap w.finding?).map (Scanner.localize repo)

theorem reported_eq (h : w.IsSound) (repo report : String) :
    w.scanner.reported repo (.ok report) = .ok (w.resultOf repo (w.items report)) := by
  rw [Scanner.reported, h.reads]
  rfl

/-- The finding of an item, if it names a file and says something. -/
def complete? (w : Wording) (item : w.Item) : Option RawFinding :=
  (w.finding? item).filter isComplete

theorem complete?_eq_some_iff : w.complete? item = some raw ↔
    w.finding? item = some raw ∧ raw.filePath ≠ "" ∧ raw.description ≠ "" := by
  rw [complete?, Option.filter_eq_some_iff, isComplete, Bool.and_eq_true, bne_iff_ne, bne_iff_ne]

/-- A file that is named is named from the repository too. -/
theorem isComplete_localize (repo : String) (raw : RawFinding) :
    isComplete (Scanner.localize repo raw) = isComplete raw := by
  have hpath : (Path.belowRoot repo raw.filePath != "") = (raw.filePath != "") := by
    rw [Bool.eq_iff_iff, bne_iff_ne, bne_iff_ne, ne_eq, Path.belowRoot_eq_empty_iff]
  rw [isComplete, isComplete, Scanner.localize, hpath]

/-- The reports that count are those of the items, one by one. -/
theorem completeRaws_resultOf (w : Wording) (repo : String) (items : List w.Item) :
    completeRaws [w.resultOf repo items] =
      (items.filterMap w.complete?).map fun raw => (w.scanner.name, Scanner.localize repo raw) := by
  have hcomplete : isComplete ∘ Scanner.localize repo = isComplete :=
    funext fun raw => isComplete_localize repo raw
  have hfilter : (items.filterMap w.finding?).filter isComplete = items.filterMap w.complete? :=
    List.filter_filterMap
  rw [completeRaws, List.filter_cons_of_pos (by rfl), List.filter_nil, List.flatMap_singleton,
    resultOf, List.filter_map, hcomplete, hfilter, List.map_map]
  rfl

/-- A way to gather findings from results: it looks at the complete raw findings only, its findings are
among the collected ones, and each key of these is among its own. -/
structure Gathers (gather : (Nat → String) → List ToolResult → List Finding) : Prop where
  congr : ∀ {newId results results'}, completeRaws results = completeRaws results' →
    gather newId results = gather newId results'
  mem_collect : ∀ {newId results f}, f ∈ gather newId results → f ∈ collect newId results
  keys : ∀ newId results f, f ∈ collect newId results → ∃ g ∈ gather newId results, g.key = f.key

theorem gathers_collect : Gathers collect where
  congr h := by rw [collect, h, collect]
  mem_collect hf := hf
  keys _ _ f hf := ⟨f, hf, rfl⟩

theorem gathers_aggregate : Gathers aggregate where
  congr h := Finding.aggregate_congr _ h
  mem_collect := Finding.mem_collect_of_mem_aggregate
  keys newId _ _ := Finding.exists_mem_aggregate_key newId

/-- The collection of the findings, and what aggregation makes of it. -/
def gatherings : List ((Nat → String) → List ToolResult → List Finding) := [collect, aggregate]

theorem gathers_of_mem (h : gather ∈ gatherings) : Gathers gather := by
  rcases List.mem_pair.mp h with rfl | rfl
  · exact gathers_collect
  · exact gathers_aggregate

theorem Gathers.resultOf_append_cons (hg : Gathers gather) (h : w.complete? item = none) :
    gather newId [w.resultOf repo (before ++ item :: after)] =
      gather newId [w.resultOf repo (before ++ after)] := by
  apply hg.congr
  rw [completeRaws_resultOf, completeRaws_resultOf, List.filterMap_append,
    List.filterMap_cons_none h, ← List.filterMap_append]

/-- A finding is made of an item. -/
def Makes (w : Wording) (repo : String) (item : w.Item) (f : Finding) : Prop :=
  ∃ raw, w.finding? item = some raw ∧ f = ofRaw f.id w.scanner.name (Scanner.localize repo raw)

/-- A finding of the result is made of an item with a file and something to say. -/
theorem Gathers.exists_item (hg : Gathers gather) (h : f ∈ gather newId [w.resultOf repo items]) :
    ∃ item ∈ items, ∃ raw, w.complete? item = some raw ∧
      f = ofRaw f.id w.scanner.name (Scanner.localize repo raw) := by
  obtain ⟨n, hn, hf⟩ := Finding.mem_collect_iff.mp (hg.mem_collect h)
  have hmem := List.getElem_mem hn
  generalize (completeRaws [w.resultOf repo items])[n] = x at hf hmem
  rw [completeRaws_resultOf, List.mem_map] at hmem
  obtain ⟨raw, hraw, rfl⟩ := hmem
  obtain ⟨item, hitem, hcomplete⟩ := List.mem_filterMap.mp hraw
  refine ⟨item, hitem, raw, hcomplete, ?_⟩
  rw [hf]
  rfl

/-- What an item says of a file is in the result, in its words. -/
theorem Gathers.exists_description (hg : Gathers gather) (newId : Nat → String) (repo : String)
    (hitem : item ∈ items) (h : w.complete? item = some raw) :
    ∃ f ∈ gather newId [w.resultOf repo items], f.description = raw.description := by
  have hmem : (w.scanner.name, Scanner.localize repo raw) ∈ completeRaws [w.resultOf repo items] := by
    rw [completeRaws_resultOf]
    exact List.mem_map_of_mem (List.mem_filterMap.mpr ⟨item, hitem, h⟩)
  obtain ⟨n, hn, hx⟩ := List.getElem_of_mem hmem
  obtain ⟨f, hf, hkey⟩ := hg.keys newId _ _ (Finding.mem_collect_iff.mpr ⟨n, hn, rfl⟩)
  have hdescription := congrArg (fun key => key.2.2) hkey
  rw [hx] at hdescription
  exact ⟨f, hf, hdescription⟩

/-- Whatever is reported of an item is not about a file. -/
def NamesNoFile (w : Wording) (item : w.Item) : Prop :=
  ∀ raw, w.finding? item = some raw → raw.filePath = ""

/-- Items without a word leave no trace: the result is that of the other items. -/
def DropsWordless (w : Wording) (gather : (Nat → String) → List ToolResult → List Finding)
    (newId : Nat → String) (repo : String) (items : List w.Item) : Prop :=
  ∀ before item after, items = before ++ item :: after → Wordless (w.sources item) →
    gather newId [w.resultOf repo items] = gather newId [w.resultOf repo (before ++ after)]

/-- Every finding of the result quotes an item that it is made of. -/
def QuotesItems (w : Wording) (gather : (Nat → String) → List ToolResult → List Finding)
    (newId : Nat → String) (repo : String) (items : List w.Item) : Prop :=
  ∀ f ∈ gather newId [w.resultOf repo items],
    ∃ item ∈ items, w.Makes repo item f ∧ Quotes f.description (w.sources item)

namespace IsSound

variable (h : w.IsSound)

include h

/-- An item without a word has nothing to report, unless there are fixed words and it names a file. -/
theorem complete?_eq_none (hnone : Wordless (w.sources item))
    (hmute : w.filler = "" ∨ w.NamesNoFile item) : w.complete? item = none := by
  rw [Option.eq_none_iff_forall_ne_some]
  intro raw hcomplete
  obtain ⟨hraw, hpath, htext⟩ := complete?_eq_some_iff.mp hcomplete
  rcases hmute with hfiller | hfile
  · exact htext (((h.worded item raw hraw).filled hnone).trans hfiller)
  · exact hpath (hfile raw hraw)

/-- A finding of the result quotes the item that it is made of, or it says only the fixed words. -/
theorem exists_quoted_or_filled (hg : Gathers gather) (hf : f ∈ gather newId [w.resultOf repo items]) :
    ∃ item ∈ items, w.complete? item ≠ none ∧ w.Makes repo item f ∧
      (Quotes f.description (w.sources item) ∨
        Wordless (w.sources item) ∧ f.description = w.filler) := by
  obtain ⟨item, hitem, raw, hcomplete, heq⟩ := hg.exists_item hf
  have hraw := (complete?_eq_some_iff.mp hcomplete).1
  have hdescription : f.description = raw.description := congrArg Finding.description heq
  refine ⟨item, hitem, by simp [hcomplete], ⟨raw, hraw, heq⟩, ?_⟩
  rw [hdescription]
  by_cases hnone : Wordless (w.sources item)
  · exact .inr ⟨hnone, (h.worded item raw hraw).filled hnone⟩
  · exact .inl ((h.worded item raw hraw).quotes hnone)

/-- A finding that quotes its item says more than the fixed words. -/
theorem ne_filler_of_quotes (hmakes : w.Makes repo item f)
    (hquotes : Quotes f.description (w.sources item)) : f.description ≠ w.filler := by
  obtain ⟨raw, hraw, heq⟩ := hmakes
  have hdescription : f.description = raw.description := congrArg Finding.description heq
  have hlonger := (h.worded item raw hraw).longer fun hnone => hnone.not_quotes hquotes
  intro hfiller
  rw [← hdescription, hfiller] at hlonger
  exact Nat.lt_irrefl _ hlonger

theorem drops_and_quotes (hg : Gathers gather) (hmute : w.filler = "" ∨
    ∀ item ∈ items, Wordless (w.sources item) → w.NamesNoFile item) :
    w.DropsWordless gather newId repo items ∧ w.QuotesItems gather newId repo items := by
  have hnothing : ∀ item ∈ items, Wordless (w.sources item) → w.complete? item = none :=
    fun item hitem hnone => h.complete?_eq_none hnone (hmute.imp_right fun hfile => hfile item hitem hnone)
  constructor
  · rintro before item after rfl hnone
    exact hg.resultOf_append_cons (hnothing item (by simp) hnone)
  · intro f hf
    obtain ⟨item, hitem, hsome, hmakes, hquotes | ⟨hnone, -⟩⟩ := h.exists_quoted_or_filled hg hf
    · exact ⟨item, hitem, hmakes, hquotes⟩
    · exact absurd (hnothing item hitem hnone) hsome

/-- Fixed words about a file are in the result, and nothing that quotes an item is taken for them. -/
theorem mute_of_quotesItems (hg : Gathers gather) (hquoted : w.QuotesItems gather newId repo items) :
    w.filler = "" ∨ ∀ item ∈ items, Wordless (w.sources item) → w.NamesNoFile item := by
  by_contra hloud
  push Not at hloud
  obtain ⟨hfiller, item, hitem, hnone, hnames⟩ := hloud
  rw [NamesNoFile] at hnames
  push Not at hnames
  obtain ⟨raw, hraw, hpath⟩ := hnames
  have hfilled := (h.worded item raw hraw).filled hnone
  have hcomplete := complete?_eq_some_iff.mpr ⟨hraw, hpath, fun he => hfiller (hfilled.symm.trans he)⟩
  obtain ⟨f, hf, hdescription⟩ := hg.exists_description newId repo hitem hcomplete
  obtain ⟨item', -, hmakes, hquotes⟩ := hquoted f hf
  exact h.ne_filler_of_quotes hmakes hquotes (hdescription.trans hfilled)

end IsSound

/-- **When findings say something.** For every scanner and every report: items none of whose describing
fields is a text with anything in it leave no trace, and every finding of the result quotes the item that
it is made of, if and only if there are no fixed words around these fields, or no such item is about a
file. In any case a finding of the result either quotes its item, or it consists of the fixed words and its
item has nothing to quote. So it is with the findings as they are collected, and with what aggregation
makes of them. -/
theorem aggregate_wording {w : Wording} (hw : w ∈ wordings) (newId : Nat → String)
    (repo report : String) :
    wordings.map scanner = Registry.standard.entries.map Registration.scanner ∧
      w.scanner.reported repo (.ok report) = .ok (w.resultOf repo (w.items report)) ∧
      ∀ gather ∈ gatherings,
        (w.DropsWordless gather newId repo (w.items report) ∧
            w.QuotesItems gather newId repo (w.items report) ↔
          w.filler = "" ∨ ∀ item ∈ w.items report, Wordless (w.sources item) → w.NamesNoFile item) ∧
        ∀ f ∈ gather newId [w.resultOf repo (w.items report)],
          ∃ item ∈ w.items report, w.Makes repo item f ∧
            (Quotes f.description (w.sources item) ∨
              Wordless (w.sources item) ∧ f.description = w.filler) := by
  have hsound := isSound_of_mem_wordings hw
  refine ⟨map_scanner_wordings, reported_eq hsound repo report, fun gather hgather => ?_⟩
  have hg := gathers_of_mem hgather
  refine ⟨⟨?_, hsound.drops_and_quotes hg⟩, ?_⟩
  · exact fun hboth => hsound.mute_of_quotesItems hg hboth.2
  · intro f hf
    obtain ⟨item, hitem, -, hmakes, hcases⟩ := hsound.exists_quoted_or_filled hg hf
    exact ⟨item, hitem, hmakes, hcases⟩

/-- Two warnings: one without a word, and without a file as well, and one that says something. -/
theorem aggregate_wording_warnings :
    let nameless : Json.Value := .object [("line", .int 3)]
    let plain : Json.Value := .object [("file", .string "b.rb"), ("message", .string "Injection")]
    let report :=
      "\x7b\"warnings\": [\x7b\"line\": 3\x7d, \x7b\"file\": \"b.rb\", \"message\": \"Injection\"\x7d]\x7d"
    (brakeman ∈ wordings ∧ brakeman.items report = [nameless, plain] ∧
        Wordless (brakeman.sources nameless)) ∧
      ∀ gather ∈ gatherings,
        gather toString [brakeman.resultOf "/repo" [nameless, plain]] =
            gather toString [brakeman.resultOf "/repo" [plain]] ∧
          brakeman.QuotesItems gather toString "/repo" [nameless, plain] := by
  intro nameless plain report
  have hw : brakeman ∈ wordings := by simp [wordings]
  have hitems : brakeman.items report = [nameless, plain] := by
    simp only [report, nameless, plain]
    rfl
  have hnameless : Wordless (brakeman.sources nameless) := by
    simp [nameless, brakeman, ofItems, Wordless, Json.Value.field, Json.Value.fields, Json.Fields.get?]
  have hplain : ¬ Wordless (brakeman.sources plain) := fun h =>
    absurd (h.text_eq (.tail _ (.head _))) (by decide)
  have hmute : ∀ item ∈ brakeman.items report, Wordless (brakeman.sources item) →
      brakeman.NamesNoFile item := by
    rw [hitems]
    intro item hitem hnone raw hraw
    rcases List.mem_pair.mp hitem with rfl | rfl
    · obtain rfl := Option.some.inj hraw
      rfl
    · exact absurd hnone hplain
  refine ⟨⟨hw, hitems, hnameless⟩, fun gather hgather => ?_⟩
  obtain ⟨-, -, hall⟩ := aggregate_wording hw toString "/repo" report
  obtain ⟨hdrops, hquotes⟩ := (hall gather hgather).1.mpr (.inr hmute)
  rw [hitems] at hdrops hquotes
  exact ⟨hdrops [] nameless [plain] rfl hnameless, hquotes⟩

/-- A row of five columns, none of which is a text, is a finding about a colon. -/
theorem filler_reported :
    ∃ row, safety.items "[[null, null, null, null, null]]" = [row] ∧ Wordless (safety.sources row) ∧
      ∃ result, Scanner.safety.reported "/repo" (.ok "[[null, null, null, null, null]]") = .ok result ∧
        ∀ gather ∈ gatherings, ∃ f ∈ gather toString [result], f.description = ": " ∧
          ¬ Quotes f.description (safety.sources row) := by
  have hitems : safety.items "[[null, null, null, null, null]]" =
      [.array [.null, .null, .null, .null, .null]] := by rfl
  have hwordless : Wordless (safety.sources (.array [.null, .null, .null, .null, .null])) := by
    simp [safety, Wordless, Json.Value.items]
  have hcomplete : safety.complete? (.array [.null, .null, .null, .null, .null]) =
      some ⟨"requirements.txt", ": ", "high", none, none⟩ := by rfl
  have hreported := reported_eq isSound_safety "/repo" "[[null, null, null, null, null]]"
  rw [hitems] at hreported
  refine ⟨_, hitems, hwordless, _, hreported, fun gather hgather => ?_⟩
  obtain ⟨f, hf, hdescription⟩ := (gathers_of_mem hgather).exists_description toString "/repo"
    (List.mem_singleton_self _) hcomplete
  exact ⟨f, hf, hdescription, hwordless.not_quotes⟩

end Wording

end RepoAudit
