import Mathlib.Data.List.Permutation
import RepoAudit.Proofs.Aggregate
import RepoAudit.Proofs.Review.Frame
import RepoAudit.Proofs.Store.Columns
import RepoAudit.Proofs.Store.Orderly

/-!
# Findings are read back as they were written

The findings of a job are written when it is completed, and come back the most severe first. A scan
hands them over in this order already: aggregation has sorted them, and a review keeps the order.

* `Finding.FromScan` — the lists that a scan hands to the store, which are in order;
* `Store.rowsFor_eq_nil_of_open` — a job that has not ended has no rows;
* `Store.complete_read_back` — **a completion of a job that has not ended is granted, and the job is
  read back completed, with its review and its findings, stably sorted**.
-/

namespace RepoAudit

namespace Finding

/-- The findings that a scan hands to the store: what the tools reported, aggregated, and after a
review if there was one. -/
inductive FromScan : List Finding → Prop
  | aggregated (newId : Nat → String) (results : List ToolResult) :
    FromScan (aggregate newId results)
  | reviewed {σ : Type} {reviewer : Reviewer σ} {t : FileTree} {cwd : Location} {repo : String}
      {st : Setting σ} {newId : Nat → String} {results : List ToolResult} {out : List Finding}
      {stats : ReviewStats}
      (h : (reviewer.review t cwd repo (aggregate newId results) st).1 = .ok (out, stats)) :
    FromScan out

end Finding

namespace Reviewer

variable {σ : Type} {r : Reviewer σ} {t : FileTree} {cwd : Location} {repo : String}
  {findings out : List Finding} {stats : ReviewStats} {st : Setting σ}

/-- A review keeps the severities of the findings in their order. -/
theorem map_severity_review (h : (r.review t cwd repo findings st).1 = .ok (out, stats)) :
    out.map Finding.severity = findings.map Finding.severity := by
  rcases review_cases h with ⟨reason, rfl, -⟩ | ⟨texts, answer, -, hend⟩
  · rfl
  · rcases conclude_cases hend with ⟨reason, rfl, -⟩ | ⟨advice, rfl, -⟩
    · rfl
    · rw [Review.attach, List.map_map, List.map_map]
      refine List.map_congr_left ?_
      intro f _
      show (Review.attachOne _ _ _ f).1.severity = f.severity
      rw [Review.attachOne_eq]

end Reviewer

/-- What a scan hands to the store is in order. -/
theorem Finding.FromScan.ranked {fs : List Finding} (h : FromScan fs) : Ranked fs := by
  cases h with
  | aggregated newId results => exact ranked_ranked _
  | reviewed h =>
    have hsame := Reviewer.map_severity_review h
    rw [ranked_iff_map_severity, hsame, ← ranked_iff_map_severity]
    exact ranked_ranked _

namespace Store

variable {s : Store} {id : String} {r : JobRecord}

/-! ### Rows of a job that has not ended -/

/-- A job that has not ended has no rows. -/
theorem rowsFor_eq_nil_of_open (calls : List Call) (hr : (afterCalls calls).record? id = some r)
    (hopen : r.status.isTerminal = false) : (afterCalls calls).rowsFor id = [] := by
  have hstages : ∀ a ∈ stages calls id, a.isTerminal = false := by
    obtain ⟨hchain, hlast⟩ := isChain_stages calls id
    rw [hr, Option.map_some] at hlast
    obtain ⟨before, hbefore⟩ := List.getLast?_eq_some_iff.mp hlast
    rw [hbefore] at hchain ⊢
    intro a ha
    rcases List.mem_append.mp ha with hearlier | hlatest
    · exact JobStatus.not_isTerminal_of_isChain hchain a hearlier
    · rw [List.mem_singleton.mp hlatest]
      exact hopen
  have hnone : completions calls id = [] := by
    refine List.eq_nil_iff_forall_not_mem.mpr ?_
    intro c hc
    obtain ⟨hgranted, hown⟩ := List.mem_filter.mp hc
    obtain ⟨hcompletion, hid⟩ := Bool.and_eq_true_iff.mp hown
    have hmem : JobStatus.completed ∈ stages calls id :=
      List.mem_filterMap.mpr ⟨c, List.mem_filter.mpr ⟨hgranted, hid⟩,
        stage?_of_isCompletion hcompletion⟩
    exact absurd (hstages _ hmem) (by decide)
  rw [rowsFor_afterCalls, hnone, List.flatMap_nil]

/-! ### The main statement -/

/-- The positions of the rows of a list are different. -/
theorem nodup_position_rowsOf (id : String) (findings : List Finding) :
    ((rowsOf id findings).map FindingRow.position).Nodup := by
  have hpositions : (rowsOf id findings).map FindingRow.position = List.range findings.length :=
    List.ext_getElem (by simp [rowsOf]) (by simp [rowsOf])
  rw [hpositions]
  exact List.nodup_range

theorem insertable_rowsOf {findings : List Finding} (hids : (findings.map Finding.id).Nodup)
    (hnew : ∀ f ∈ findings, ∀ x ∈ s.rows, x.finding.id ≠ f.id) :
    s.Insertable (rowsOf id findings) := by
  have hfinding : ∀ x ∈ rowsOf id findings, x.finding ∈ findings := by
    intro x hx
    rw [← map_finding_rowsOf id findings]
    exact List.mem_map_of_mem hx
  constructor
  · have hmap : (rowsOf id findings).map (fun x => x.finding.id) = findings.map Finding.id := by
      rw [← map_finding_rowsOf id findings, List.map_map, map_finding_rowsOf]
      rfl
    rw [hmap]
    exact hids
  · intro x hx
    exact hnew x.finding (hfinding x hx)

theorem all_holdsLine {findings : List Finding}
    (h : ∀ f ∈ findings, ∀ n ∈ f.line, -Json.wordBound ≤ n ∧ n < Json.wordBound) :
    findings.all holdsLine := by
  rw [List.all_eq_true]
  intro f hf
  rw [holdsLine, Option.all_eq_true]
  intro n hn
  rw [Json.fitsInWord, Bool.and_eq_true, decide_eq_true_eq, decide_eq_true_eq]
  exact h f hf n hn

/-- A job without rows that has not ended can be completed, and is read back with what was written. -/
theorem exists_complete (hr : s.record? id = some r) (hopen : r.status.isTerminal = false)
    (hnone : s.rowsFor id = []) (now : Moment) {findings : List Finding}
    (hinsertable : s.Insertable (rowsOf id findings)) (hlines : findings.all holdsLine)
    (stats : Option ReviewStats) :
    ∃ s', s.complete now id findings stats = .ok s' ∧
      s'.rows = s.rows ++ rowsOf id findings ∧ s'.rowsFor id = rowsOf id findings ∧
      s'.get id = .ok { s.toJob r with
        status := .completed, stats := stats, findings := Finding.ranked findings
        completed := some now.asUniversal } := by
  have hmove : r.status.canMoveTo .completed :=
    JobStatus.canMoveTo_of_isTerminal hopen rfl
  let added : Store := { s with rows := s.rows ++ rowsOf id findings }
  let finish : JobRecord → JobRecord := fun r =>
    { r with status := .completed, stats := stats, completed := some now.asUniversal }
  have hrows : added.rowsFor id = rowsOf id findings := by
    rw [rowsFor_append_rowsOf, hnone, List.nil_append]
  have hrecord : (added.update id finish).record? id = some (finish r) :=
    record?_update (fun _ => rfl) hr
  have hfindings : added.findingsOf r.id = Finding.ranked findings := by
    rw [id_of_record? hr, findingsOf_eq_ranked hrows]
  refine ⟨added.update id finish, ?_, rfl, hrows, ?_⟩
  · exact complete_eq_ok_iff.mpr ⟨r, hr, hmove, hlines, hinsertable, rfl⟩
  · rw [get, hrecord, ← hfindings]
    rfl

/-- **Findings are read back as they were written.** After any history of calls, a job that has not
ended can be completed with any findings whose identifiers are distinct and not in the table yet and
whose lines fit into 64 bits. A row per finding is added, in order. Whatever the database answers to
the query for the rows of the job, the job is put together again completed, with the review that was
given and with the findings that were given, each with all its fields, stably sorted by severity. In
particular findings that are in order come back as the same list, and those of a scan are. -/
theorem complete_read_back (calls : List Call) (hr : (afterCalls calls).record? id = some r)
    (hopen : r.status.isTerminal = false) (now : Moment) {findings : List Finding}
    (hids : (findings.map Finding.id).Nodup)
    (hnew : ∀ f ∈ findings, ∀ x ∈ (afterCalls calls).rows, x.finding.id ≠ f.id)
    (hlines : ∀ f ∈ findings, ∀ n ∈ f.line, -Json.wordBound ≤ n ∧ n < Json.wordBound)
    (stats : Option ReviewStats) :
    ∃ s j, (afterCalls calls).complete now id findings stats = .ok s ∧
      s.database.findings =
        (afterCalls calls).database.findings ++ findings.mapIdx (FindingColumns.of id) ∧
      s.get id = .ok j ∧
      (∃ rows, s.database.Selects id rows) ∧
      (∀ rows, s.database.Selects id rows → s.database.read? id rows = some j) ∧
      j.status = .completed ∧ j.stats = stats ∧
      Finding.StablyRanked findings j.findings ∧
      (Finding.Ranked findings → j.findings = findings) ∧
      (Finding.FromScan findings → j.findings = findings) := by
  obtain ⟨s, hcomplete, hrows, hown, hget⟩ := exists_complete hr hopen
    (rowsFor_eq_nil_of_open calls hr hopen) now (insertable_rowsOf hids hnew)
    (all_holdsLine hlines) stats
  obtain ⟨hsome, hall⟩ := read?_database (hown ▸ nodup_position_rowsOf id findings) hget
  refine ⟨s, _, hcomplete, ?_, hget, hsome, hall, rfl, rfl, ?_, ?_, ?_⟩
  · show s.rows.map FindingRow.columns = _
    rw [hrows, List.map_append, map_columns_rowsOf]
    rfl
  · exact Finding.stablyRanked_ranked findings
  · intro hranked
    exact Finding.ranked_eq_self hranked
  · intro hscan
    exact Finding.ranked_eq_self hscan.ranked

/-- A finding of low severity. -/
def lowFinding : Finding :=
  { id := "f0", severity := .low, tool := "bandit", filePath := "app.py", description := "d"
    line := some 3 }

/-- A critical finding. -/
def criticalFinding : Finding :=
  { id := "f1", severity := .critical, tool := "trivy", filePath := "go.sum", description := "e"
    rule := some "CVE-1" }

/-- A critical finding that was written second is read back first. -/
theorem complete_read_back_swapped :
    ∃ s j, (afterCalls [requested]).complete someDay "j" [lowFinding, criticalFinding]
        (some { total := 2 }) = .ok s ∧
      s.get "j" = .ok j ∧ j.status = .completed ∧ j.stats = some { total := 2 } ∧
      j.findings = [criticalFinding, lowFinding] := by
  have hrecord : ∃ r, (afterCalls [requested]).record? "j" = some r ∧
      r.status.isTerminal = false := ⟨_, rfl, rfl⟩
  obtain ⟨r, hr, hopen⟩ := hrecord
  have hlines : ∀ f ∈ [lowFinding, criticalFinding], ∀ n ∈ f.line,
      -Json.wordBound ≤ n ∧ n < Json.wordBound := by decide
  obtain ⟨s, j, hcomplete, -, hget, -, -, hstatus, hstats, hsorted, -⟩ :=
    complete_read_back [requested] hr hopen someDay (by decide) (by decide) hlines
      (some { total := 2 })
  refine ⟨s, j, hcomplete, hget, hstatus, hstats, ?_⟩
  -- of the two orders of two findings, one is sorted
  rcases List.perm_pair.mp hsorted.perm with hkept | hswapped
  · have hranked := hsorted.ranked
    rw [hkept] at hranked
    exact absurd hranked (by decide)
  · exact hswapped

end Store

end RepoAudit
