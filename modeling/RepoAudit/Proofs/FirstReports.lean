import RepoAudit.Proofs.Aggregate

/-!
# One finding for each subject

Several tools report the same thing. Aggregation keeps, for each subject that is reported at all,
what was reported first, and then puts the most severe findings first.

* `RawFinding.subject`, `Finding.subject` — the file, the line if it is positive, and the
  description;
* `Finding.firstReport` — where the first report on a subject stands among those that count;
* `Finding.find?_deduplicate`, `Finding.pairwise_deduplicate` — deduplication keeps the first finding
  of each key and the order of these;
* `Finding.aggregate_one_per_subject` — **the result has exactly one finding for each subject
  reported, with what its first report says, by severity and then by the position of that report**.
-/

namespace RepoAudit

/-- A file, a line if there is one, and a description. -/
abbrev Subject := String × Option Int × String

/-- What a raw finding is about. -/
def RawFinding.subject (raw : RawFinding) : Subject :=
  (raw.filePath, Finding.positive? raw.line, raw.description)

namespace Finding

variable {newId : Nat → String} {results : List ToolResult} {f g : Finding}

/-- What a finding is about. -/
def subject (f : Finding) : Subject := (f.filePath, f.line, f.description)

/-- Where the first report on a subject stands among the reports that count. -/
def firstReport (results : List ToolResult) (s : Subject) : Nat :=
  (completeRaws results).findIdx fun x => x.2.subject = s

/-! ### The reports that count -/

/-- The reports that count: of the runs that ended in time and without an error text, those that
name a file and say something. -/
theorem mem_completeRaws_iff {x : String × RawFinding} :
    x ∈ completeRaws results ↔
      ∃ r ∈ results, r.timedOut = false ∧ (r.error = none ∨ r.error = some "") ∧ r.tool = x.1 ∧
        x.2 ∈ r.findings ∧ x.2.filePath ≠ "" ∧ x.2.description ≠ "" := by
  have hcounts : ∀ r : ToolResult, r.counts = true ↔
      r.timedOut = false ∧ (r.error = none ∨ r.error = some "") := by
    intro r
    cases h : r.error <;> simp [ToolResult.counts, h]
  obtain ⟨tool, raw⟩ := x
  simp only [completeRaws, List.mem_flatMap, List.mem_filter, List.mem_map, hcounts, isComplete,
    Bool.and_eq_true, bne_iff_ne, Prod.mk.injEq]
  constructor
  · rintro ⟨r, ⟨hr, htime, herror⟩, raw', ⟨hraw, hpath, htext⟩, htool, rfl⟩
    exact ⟨r, hr, htime, herror, htool, hraw, hpath, htext⟩
  · rintro ⟨r, hr, htime, herror, htool, hraw, hpath, htext⟩
    exact ⟨r, ⟨hr, htime, herror⟩, raw, ⟨hraw, hpath, htext⟩, htool, rfl⟩

/-- A line that is kept is positive. -/
theorem positive?_pos {line : Option Int} {n : Int} (h : positive? line = some n) : 0 < n := by
  cases line with
  | none => cases h
  | some m =>
    rw [positive?] at h
    split at h
    · next hm =>
      rw [Option.some.injEq] at h
      exact h ▸ hm
    · cases h

/-- A text that is kept is not empty. -/
theorem nonEmpty?_eq_filter (text : Option String) : nonEmpty? text = text.filter (· ≠ "") := by
  cases text with
  | none => rfl
  | some s =>
    by_cases hs : s = ""
    · simp [nonEmpty?, Option.filter, hs]
    · simp [nonEmpty?, Option.filter, hs]

theorem map_subject_collect :
    (collect newId results).map subject = (completeRaws results).map fun x => x.2.subject :=
  List.ext_getElem (by simp [collect]) (by simp [collect, ofRaw, subject, RawFinding.subject])

theorem line_pos_of_mem_collect (h : f ∈ collect newId results) {n : Int} (hn : f.line = some n) :
    0 < n := by
  obtain ⟨i, hi, rfl⟩ := mem_collect_iff.mp h
  exact positive?_pos hn

/-! ### Keys and subjects -/

/-- The key of the findings on a subject. -/
def keyOf (s : Subject) : String × Int × String := (s.1, s.2.1.getD 0, s.2.2)

theorem key_eq_keyOf (f : Finding) : f.key = keyOf f.subject := rfl

/-- Line 0 stands for no line, and no line that is kept is 0. -/
theorem keyOf_eq_iff {s t : Subject} (hs : ∀ n, s.2.1 = some n → 0 < n)
    (ht : ∀ n, t.2.1 = some n → 0 < n) : keyOf s = keyOf t ↔ s = t := by
  obtain ⟨path, line, text⟩ := s
  obtain ⟨path', line', text'⟩ := t
  have hline : line.getD 0 = line'.getD 0 ↔ line = line' := by
    cases line with
    | none =>
      cases line' with
      | none => simp
      | some m => simpa using (ht m rfl).ne
    | some n =>
      cases line' with
      | none => simpa using (hs n rfl).ne'
      | some m => simp
  simp only [keyOf, Prod.mk.injEq, hline]

/-! ### Deduplicating -/

/-- A finding that is kept is the first of its key, and its key has not been met before. -/
theorem find?_deduplicateScan {seen : List (String × Int × String)} {fs : List Finding}
    (h : f ∈ deduplicateScan seen fs) :
    f.key ∉ seen ∧ fs.find? (fun x => x.key = f.key) = some f := by
  induction fs generalizing seen with
  | nil => exact absurd h List.not_mem_nil
  | cons first rest ih =>
    rw [deduplicateScan] at h
    split at h
    · next hseen =>
      obtain ⟨hnew, hfirst⟩ := ih h
      have hne : first.key ≠ f.key := fun heq => hnew (heq ▸ hseen)
      exact ⟨hnew, by rw [List.find?_cons_of_neg (by simpa using hne), hfirst]⟩
    · next hseen =>
      rcases List.mem_cons.mp h with rfl | hrest
      · exact ⟨hseen, List.find?_cons_of_pos (by simp)⟩
      · obtain ⟨hnew, hfirst⟩ := ih hrest
        rw [List.mem_cons, not_or] at hnew
        have hne : first.key ≠ f.key := fun heq => hnew.1 heq.symm
        exact ⟨hnew.2, by rw [List.find?_cons_of_neg (by simpa using hne), hfirst]⟩

/-- Findings that are kept stand in the order of the first findings of their keys. -/
theorem pairwise_deduplicateScan (seen : List (String × Int × String)) (fs : List Finding) :
    (deduplicateScan seen fs).Pairwise fun f g =>
      fs.findIdx (fun x => x.key = f.key) < fs.findIdx (fun x => x.key = g.key) := by
  induction fs generalizing seen with
  | nil => exact .nil
  | cons first rest ih =>
    -- behind the first finding, every position is one more
    have hlater : ∀ seen', first.key ∈ seen' → ∀ f ∈ deduplicateScan seen' rest,
        (first :: rest).findIdx (fun x => x.key = f.key) =
          rest.findIdx (fun x => x.key = f.key) + 1 := by
      intro seen' hseen f hf
      have hne : first.key ≠ f.key := fun heq => (find?_deduplicateScan hf).1 (heq ▸ hseen)
      simp [List.findIdx_cons, hne]
    have hstep : ∀ seen', first.key ∈ seen' → (deduplicateScan seen' rest).Pairwise fun f g =>
        (first :: rest).findIdx (fun x => x.key = f.key) <
          (first :: rest).findIdx (fun x => x.key = g.key) := by
      intro seen' hseen
      refine (ih seen').imp_of_mem fun {f g} hf hg hfg => ?_
      rw [hlater seen' hseen f hf, hlater seen' hseen g hg]
      exact Nat.succ_lt_succ hfg
    rw [deduplicateScan]
    split
    · next hseen => exact hstep seen hseen
    · refine .cons (fun g hg => ?_) (hstep _ List.mem_cons_self)
      rw [hlater _ List.mem_cons_self g hg]
      simp [List.findIdx_cons]

theorem find?_deduplicate {fs : List Finding} (h : f ∈ deduplicate fs) :
    fs.find? (fun x => x.key = f.key) = some f :=
  (find?_deduplicateScan h).2

theorem pairwise_deduplicate (fs : List Finding) :
    (deduplicate fs).Pairwise fun f g =>
      fs.findIdx (fun x => x.key = f.key) < fs.findIdx (fun x => x.key = g.key) :=
  pairwise_deduplicateScan [] fs

/-! ### The result -/

/-- The first finding with the key of a finding comes from the first report on its subject. -/
theorem findIdx_collect (h : f ∈ collect newId results) :
    (collect newId results).findIdx (fun x => x.key = f.key) = firstReport results f.subject := by
  have hkeys : (fun x : String × RawFinding => decide (keyOf x.2.subject = f.key)) =
      fun x => decide (x.2.subject = f.subject) := by
    funext x
    rw [decide_eq_decide, key_eq_keyOf]
    exact keyOf_eq_iff (fun _ => positive?_pos) fun _ => line_pos_of_mem_collect h
  calc (collect newId results).findIdx (fun x => x.key = f.key)
      = ((collect newId results).map subject).findIdx (fun s => keyOf s = f.key) :=
        (List.findIdx_map _ subject fun s => decide (keyOf s = f.key)).symm
    _ = (completeRaws results).findIdx (fun x => keyOf x.2.subject = f.key) := by
        rw [map_subject_collect, List.findIdx_map]
        rfl
    _ = firstReport results f.subject :=
        congrArg (fun test => (completeRaws results).findIdx test) hkeys

/-- A finding of the result is made from the first report on its subject. -/
theorem eq_ofRaw_of_mem_aggregate (h : f ∈ aggregate newId results) :
    ∃ tool raw, (completeRaws results)[firstReport results f.subject]? = some (tool, raw) ∧
      f = ofRaw (newId (firstReport results f.subject)) tool raw := by
  have hkept := (aggregate_perm newId results).mem_iff.mp h
  have hfirst := find?_deduplicate hkept
  rw [List.find?_eq_getElem?_findIdx, findIdx_collect (mem_collect_of_mem_aggregate h), collect,
    List.getElem?_mapIdx, Option.map_eq_some_iff] at hfirst
  obtain ⟨⟨tool, raw⟩, hx, hf⟩ := hfirst
  exact ⟨tool, raw, hx, hf.symm⟩

theorem mem_map_subject_aggregate_iff {s : Subject} :
    s ∈ (aggregate newId results).map subject ↔ ∃ x ∈ completeRaws results, x.2.subject = s := by
  constructor
  · intro hs
    obtain ⟨f, hf, rfl⟩ := List.mem_map.mp hs
    have hmem := List.mem_map_of_mem (f := subject) (mem_collect_of_mem_aggregate hf)
    rw [map_subject_collect] at hmem
    exact List.mem_map.mp hmem
  · intro hs
    have hmem : s ∈ (collect newId results).map subject := by
      rw [map_subject_collect]
      exact List.mem_map.mpr hs
    obtain ⟨f, hf, rfl⟩ := List.mem_map.mp hmem
    obtain ⟨g, hg, hkey⟩ := exists_mem_aggregate_key newId hf
    rw [key_eq_keyOf, key_eq_keyOf,
      keyOf_eq_iff (fun _ => line_pos_of_mem_collect (mem_collect_of_mem_aggregate hg))
        fun _ => line_pos_of_mem_collect hf] at hkey
    exact List.mem_map.mpr ⟨g, hg, hkey⟩

/-- The result goes by severity, then by the position of the first report. -/
theorem pairwise_aggregate (newId : Nat → String) (results : List ToolResult) :
    (aggregate newId results).Pairwise fun f g =>
      f.severity.rank < g.severity.rank ∨
        f.severity.rank = g.severity.rank ∧
          firstReport results f.subject < firstReport results g.subject := by
  have hkept : (deduplicate (collect newId results)).Pairwise fun f g =>
      firstReport results f.subject < firstReport results g.subject := by
    refine (pairwise_deduplicate _).imp_of_mem fun {f g} hf hg hfg => ?_
    rwa [findIdx_collect ((deduplicate_sublist _).subset hf),
      findIdx_collect ((deduplicate_sublist _).subset hg)] at hfg
  refine (pairwise_mergeSort_stable rankLE_trans rankLE_total hkept).imp ?_
  intro f g ⟨hle, hties⟩
  rw [decide_eq_true_eq] at hle
  rcases hle.lt_or_eq with hlt | heq
  · exact .inl hlt
  · exact .inr ⟨heq, hties (by simp [heq])⟩

/-- No two findings of the result are about the same subject. -/
theorem nodup_map_subject_aggregate : ((aggregate newId results).map subject).Nodup := by
  have hkept : (deduplicate (collect newId results)).Pairwise fun f g => f.subject ≠ g.subject := by
    refine (pairwise_deduplicate _).imp fun {f g} hfg heq => ?_
    rw [key_eq_keyOf, key_eq_keyOf, heq] at hfg
    exact absurd hfg (Nat.lt_irrefl _)
  exact ((aggregate_perm newId results).map subject).nodup_iff.mpr (List.pairwise_map.mpr hkept)

/-- **One finding for each subject.** A subject occurs exactly once in the result if it is reported by a
run that counts, with a file and a description, and not at all otherwise. A finding carries the tool,
the severity and the rule of the first report on its subject; its line is positive if it has one; and
the findings go by severity, equal severities by the position of their first reports. -/
theorem aggregate_one_per_subject (newId : Nat → String) (results : List ToolResult) :
    (∀ s : Subject, ((aggregate newId results).map subject).count s = 1 ↔
        ∃ r ∈ results, r.timedOut = false ∧ (r.error = none ∨ r.error = some "") ∧
          ∃ raw ∈ r.findings, raw.filePath ≠ "" ∧ raw.description ≠ "" ∧ raw.subject = s) ∧
      (∀ s : Subject, ((aggregate newId results).map subject).count s ≤ 1) ∧
      (∀ f ∈ aggregate newId results,
        ∃ tool raw, (completeRaws results)[firstReport results f.subject]? = some (tool, raw) ∧
          f.tool = tool ∧ f.severity = Severity.ofToken raw.severity ∧
          f.rule = raw.rule.filter (· ≠ "") ∧
          ∀ n, f.line = some n → 0 < n) ∧
      (aggregate newId results).Pairwise fun f g =>
        f.severity.rank < g.severity.rank ∨
          f.severity.rank = g.severity.rank ∧
            firstReport results f.subject < firstReport results g.subject := by
  refine ⟨fun s => ?_, List.nodup_iff_count_le_one.mp nodup_map_subject_aggregate, fun f hf => ?_,
    pairwise_aggregate newId results⟩
  · have hcount : ((aggregate newId results).map subject).count s = 1 ↔
        s ∈ (aggregate newId results).map subject :=
      ⟨fun h => List.count_pos_iff.mp (h ▸ Nat.one_pos),
        fun h => List.count_eq_one_of_mem nodup_map_subject_aggregate h⟩
    rw [hcount, mem_map_subject_aggregate_iff]
    simp only [mem_completeRaws_iff]
    constructor
    · rintro ⟨x, ⟨r, hr, htime, herror, -, hraw, hpath, htext⟩, hs⟩
      exact ⟨r, hr, htime, herror, x.2, hraw, hpath, htext, hs⟩
    · rintro ⟨r, hr, htime, herror, raw, hraw, hpath, htext, hs⟩
      exact ⟨(r.tool, raw), ⟨r, hr, htime, herror, rfl, hraw, hpath, htext⟩, hs⟩
  · obtain ⟨tool, raw, hx, heq⟩ := eq_ofRaw_of_mem_aggregate hf
    refine ⟨tool, raw, hx, ?_, ?_, ?_,
      fun _ => line_pos_of_mem_collect (mem_collect_of_mem_aggregate hf)⟩
    · rw [heq, ofRaw]
    · rw [heq, ofRaw]
    · rw [heq, ofRaw, nonEmpty?_eq_filter]

end Finding

end RepoAudit
