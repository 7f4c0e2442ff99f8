import RepoAudit.Proofs.Sorting
import RepoAudit.Store

/-!
# What aggregation keeps

Of the findings that count, aggregation keeps the first of each key and sorts what it keeps.

* `Finding.mem_collect_iff` — the findings before deduplication;
* `Finding.deduplicate_sublist`, `Finding.mem_map_key_deduplicate_iff` — deduplication drops findings
  and no key;
* `Finding.aggregate_perm` — sorting neither adds nor drops;
* `Finding.aggregate_holdsLine_iff` — **the table of findings can hold the result exactly when it
  could hold every finding that counts**.
-/

namespace RepoAudit.Finding

variable {newId : Nat → String} {results : List ToolResult}

/-! ### Collecting -/

theorem mem_collect_iff {f : Finding} : f ∈ collect newId results ↔
    ∃ n, ∃ h : n < (completeRaws results).length,
      f = ofRaw (newId n) (completeRaws results)[n].1 (completeRaws results)[n].2 := by
  rw [collect, List.mem_mapIdx]
  exact exists_congr fun n => exists_congr fun h => eq_comm

theorem map_id_collect : (collect newId results).map id =
    (List.range (completeRaws results).length).map newId :=
  List.ext_getElem (by simp [collect]) (by simp [collect, ofRaw])

/-! ### Deduplicating -/

theorem deduplicateScan_sublist (seen : List (String × Int × String)) (fs : List Finding) :
    (deduplicateScan seen fs).Sublist fs := by
  induction fs generalizing seen with
  | nil => exact .slnil
  | cons f rest ih =>
    rw [deduplicateScan]
    split
    · exact (ih seen).cons f
    · exact (ih (f.key :: seen)).cons_cons f

theorem mem_map_key_deduplicateScan_iff {k : String × Int × String}
    {seen : List (String × Int × String)} {fs : List Finding} :
    k ∈ (deduplicateScan seen fs).map key ↔ k ∉ seen ∧ k ∈ fs.map key := by
  induction fs generalizing seen with
  | nil => simp [deduplicateScan]
  | cons f rest ih =>
    rw [deduplicateScan]
    split
    · next hseen =>
      rw [ih, List.map_cons, List.mem_cons]
      refine and_congr_right fun hk => ?_
      have hne : k ≠ f.key := fun he => hk (he ▸ hseen)
      simp [hne]
    · next hnew =>
      rw [List.map_cons, List.mem_cons, ih, List.map_cons, List.mem_cons, List.mem_cons]
      by_cases hk : k = f.key
      · simp [hk, hnew]
      · simp [hk]

theorem deduplicate_sublist (fs : List Finding) : (deduplicate fs).Sublist fs :=
  deduplicateScan_sublist [] fs

theorem mem_map_key_deduplicate_iff {k : String × Int × String} {fs : List Finding} :
    k ∈ (deduplicate fs).map key ↔ k ∈ fs.map key := by
  rw [deduplicate, mem_map_key_deduplicateScan_iff]
  simp

/-! ### The result -/

theorem aggregate_perm (newId : Nat → String) (results : List ToolResult) :
    (aggregate newId results).Perm (deduplicate (collect newId results)) :=
  List.mergeSort_perm _ _

theorem mem_collect_of_mem_aggregate {f : Finding} (h : f ∈ aggregate newId results) :
    f ∈ collect newId results :=
  (deduplicate_sublist _).subset ((aggregate_perm newId results).mem_iff.mp h)

/-- The result depends only on the reports that count. -/
theorem aggregate_congr {results' : List ToolResult} (newId : Nat → String)
    (h : completeRaws results = completeRaws results') :
    aggregate newId results = aggregate newId results' := by
  rw [aggregate, aggregate, collect, collect, h]

/-- Every key that counts is among those of the result. -/
theorem exists_mem_aggregate_key {f : Finding} (newId : Nat → String)
    (h : f ∈ collect newId results) :
    ∃ g ∈ aggregate newId results, g.key = f.key := by
  have hkey : f.key ∈ (deduplicate (collect newId results)).map key :=
    mem_map_key_deduplicate_iff.mpr (List.mem_map_of_mem h)
  obtain ⟨g, hg, hsame⟩ := List.mem_map.mp hkey
  exact ⟨g, (aggregate_perm newId results).mem_iff.mpr hg, hsame⟩

/-- Distinct identifiers stay distinct. -/
theorem nodup_map_id_aggregate
    (h : ((List.range (completeRaws results).length).map newId).Nodup) :
    ((aggregate newId results).map id).Nodup := by
  rw [← map_id_collect] at h
  exact ((aggregate_perm newId results).map id).nodup_iff.mpr
    (h.sublist ((deduplicate_sublist _).map id))

/-- Sorting the result again changes nothing. -/
theorem ranked_aggregate : ranked (aggregate newId results) = aggregate newId results :=
  ranked_eq_self (ranked_ranked _)

/-! ### Lines that the table can hold -/

/-- A line number that the table of findings can hold, if it is kept at all. -/
def LineFits (raw : RawFinding) : Prop := ∀ n ∈ raw.line, n < Json.wordBound

instance (raw : RawFinding) : Decidable (LineFits raw) :=
  inferInstanceAs (Decidable (∀ n ∈ raw.line, n < Json.wordBound))

/-- The table could hold the line of every finding that counts. -/
def LinesFit (results : List ToolResult) : Prop := ∀ x ∈ completeRaws results, LineFits x.2

instance (results : List ToolResult) : Decidable (LinesFit results) :=
  inferInstanceAs (Decidable (∀ x ∈ completeRaws results, LineFits x.2))

theorem holdsLine_ofRaw_iff {id tool : String} {raw : RawFinding} :
    Store.holdsLine (ofRaw id tool raw) ↔ LineFits raw := by
  rw [Store.holdsLine, ofRaw, LineFits]
  cases raw.line with
  | none => simp [positive?]
  | some n =>
    by_cases hn : 0 < n
    · have hlow : -Json.wordBound ≤ n := by rw [Json.wordBound]; omega
      simpa [positive?, hn, Json.fitsInWord] using fun _ => hlow
    · have hhigh : n < Json.wordBound := by rw [Json.wordBound]; omega
      simpa [positive?, hn] using hhigh

theorem holdsLine_eq (f : Finding) : Store.holdsLine f = Json.fitsInWord f.lineOrZero := by
  rw [Store.holdsLine, lineOrZero]
  cases f.line with
  | none => rfl
  | some n => rfl

/-- **The table can hold the result exactly when it could hold every finding that counts.** -/
theorem aggregate_holdsLine_iff :
    (aggregate newId results).all Store.holdsLine ↔ LinesFit results := by
  rw [List.all_eq_true]
  constructor
  · intro hall x hx
    obtain ⟨n, hn, rfl⟩ := List.getElem_of_mem hx
    -- a finding that was dropped has the key, and so the line, of one that was kept
    obtain ⟨g, hg, hkey⟩ := exists_mem_aggregate_key newId
      (mem_collect_iff.mpr ⟨n, hn, rfl⟩)
    have hline : g.lineOrZero = Finding.lineOrZero (ofRaw (newId n) (completeRaws results)[n].1
        (completeRaws results)[n].2) := congrArg (fun k => k.2.1) hkey
    have hholds := hall g hg
    rw [holdsLine_eq, hline, ← holdsLine_eq] at hholds
    exact holdsLine_ofRaw_iff.mp hholds
  · intro hraws f hf
    obtain ⟨n, hn, rfl⟩ := mem_collect_iff.mp (mem_collect_of_mem_aggregate hf)
    exact holdsLine_ofRaw_iff.mpr (hraws _ (List.getElem_mem hn))

end RepoAudit.Finding
