import RepoAudit.Proofs.Review.Outcome
import RepoAudit.Proofs.Sorting

/-!
# What a review may change

Whatever a model answers, a review only attaches advice, and only to findings that were sent to it.

* `attachOne_eq`, `forall₂_attach` — attaching advice changes nothing else, and only what was sent;
* `Reviewer.queue` — the findings that can be sent, in order; `Reviewer.chosen_eq_take_queue` — the
  first of these are sent;
* `ReviewStats.Within` — counts that fit together and keep to the limits;
* `Reviewer.review_frame` — **the findings keep their order and all they say; only the first ones of
  the queue can get advice; and the counts keep to the limits**.
-/

namespace RepoAudit

namespace Review

variable {repo : String} {ids : List String} {tables : Tables} {findings reviewed : List Finding}

/-! ### Attaching advice -/

/-- Attaching advice changes nothing but the two fields for it. -/
theorem attachOne_eq (repo : String) (ids : List String) (tables : Tables) (f : Finding) :
    (attachOne repo ids tables f).1 =
      { f with
        remediation := (attachOne repo ids tables f).1.remediation
        codeExample := (attachOne repo ids tables f).1.codeExample } := by
  rw [attachOne]
  split
  · split <;> rfl
  · rfl

/-- Advice is attached only to a finding that was sent. -/
theorem attachOne_of_not_mem {f : Finding} (h : f.id ∉ ids) :
    attachOne repo ids tables f = (f, false) := by
  rw [attachOne, if_neg h]

/-- A finding of the list is known by its identifier. -/
theorem mem_of_id_mem (hids : (findings.map Finding.id).Nodup) (hsent : reviewed ⊆ findings)
    {f : Finding} (hf : f ∈ findings) (h : f.id ∈ reviewed.map Finding.id) : f ∈ reviewed := by
  obtain ⟨g, hg, hid⟩ := List.mem_map.mp h
  exact List.inj_on_of_nodup_map hids (hsent hg) hf hid ▸ hg

/-- All findings stay in their order, and only those that were sent can change. -/
theorem forall₂_attach (repo : String) (hids : (findings.map Finding.id).Nodup)
    (hsent : reviewed ⊆ findings) (advice : List Advice) :
    List.Forall₂ (fun f g =>
        g = { f with remediation := g.remediation, codeExample := g.codeExample } ∧
          (g ≠ f → f ∈ reviewed))
      findings (attach repo findings reviewed advice).1 := by
  rw [attach, List.map_map, List.forall₂_map_right_iff, List.forall₂_same]
  intro f hf
  refine ⟨attachOne_eq _ _ _ _, fun hne => ?_⟩
  by_contra hmem
  have hid : f.id ∉ reviewed.map Finding.id := fun h => hmem (mem_of_id_mem hids hsent hf h)
  exact hne (by rw [Function.comp_apply, attachOne_of_not_mem hid])

/-- Not more findings get advice than were sent. -/
theorem attach_snd_le (repo : String) (hids : (findings.map Finding.id).Nodup)
    (reviewed : List Finding) (advice : List Advice) :
    (attach repo findings reviewed advice).2 ≤ reviewed.length := by
  rw [attach, List.filter_map, List.length_map]
  set got := findings.filter
    (Prod.snd ∘ attachOne repo (reviewed.map Finding.id) (Tables.ofList repo advice)) with hgot
  have hnodup : (got.map Finding.id).Nodup := hids.sublist (List.filter_sublist.map Finding.id)
  have hsub : got.map Finding.id ⊆ reviewed.map Finding.id := by
    intro id hid
    obtain ⟨f, hf, rfl⟩ := List.mem_map.mp hid
    by_contra hmem
    have htrue := (List.mem_filter.mp (hgot ▸ hf)).2
    rw [Function.comp_apply, attachOne_of_not_mem hmem] at htrue
    cases htrue
  have hle := hnodup.length_le_of_subset hsub
  rwa [List.length_map, List.length_map] at hle

/-! ### The queue -/

/-- The order in which findings are sent to review: by severity, then by path, then as they came. -/
def Before (findings : List Finding) (f g : Finding) : Prop :=
  f.severity.rank < g.severity.rank ∨
    f.severity.rank = g.severity.rank ∧
      (f.filePath < g.filePath ∨ f.filePath = g.filePath ∧ findings.idxOf f < findings.idxOf g)

theorem pairwise_idxOf_lt {α : Type} [DecidableEq α] {xs : List α} (h : xs.Nodup) :
    xs.Pairwise fun x y => xs.idxOf x < xs.idxOf y := by
  rw [List.pairwise_iff_getElem]
  intro i j hi hj hij
  rwa [h.idxOf_getElem i hi, h.idxOf_getElem j hj]

/-- Whether a file can be read below a repository. -/
def isReadable (t : FileTree) (cwd : Location) (memory : Nat) (limit : Int) (repo path : String) : Bool :=
  match textWithin t cwd memory limit repo path with
  | .ok (some _) => true
  | _ => false

theorem isReadable_iff {t : FileTree} {cwd : Location} {memory : Nat} {limit : Int} {path : String} :
    isReadable t cwd memory limit repo path = true ↔
      ∃ text, textWithin t cwd memory limit repo path = .ok (some text) := by
  rw [isReadable]
  split
  · next text h => exact iff_of_true rfl ⟨text, h⟩
  · next hnone =>
    refine iff_of_false Bool.false_ne_true ?_
    rintro ⟨text, h⟩
    exact hnone text h

end Review

/-- The counts of a review fit together and keep to its limits. -/
structure ReviewStats.Within (limits : ReviewLimits) (s : ReviewStats) : Prop where
  matched_le : s.matched ≤ s.reviewed
  reviewed_le : s.reviewed ≤ s.reviewable
  reviewable_le : s.reviewable ≤ s.total
  reviewed_le_limit : s.reviewed ≤ max limits.maxFindings 0
  files_le_limit : s.files ≤ max limits.maxFiles 0

/-- Why a review was skipped does not matter to its counts. -/
theorem ReviewStats.Within.skipped {limits : ReviewLimits} {s : ReviewStats} (h : s.Within limits)
    (reason : Option String) : ({ s with skipped := reason } : ReviewStats).Within limits :=
  ⟨h.matched_le, h.reviewed_le, h.reviewable_le, h.reviewed_le_limit, h.files_le_limit⟩

namespace Reviewer

open Review

variable {σ : Type} {r : Reviewer σ} {t : FileTree} {cwd : Location} {repo : String}
  {findings out : List Finding} {stats : ReviewStats} {st : Setting σ}
  {texts : List (String × String)}

/-- The findings that can be sent to review, in order: those severe enough, in chosen files that
can be read. -/
def queue (r : Reviewer σ) (t : FileTree) (cwd : Location) (repo : String)
    (findings : List Finding) : List Finding :=
  (reviewable findings).filter fun f =>
    f.filePath ∈ files r.limits.maxFiles findings &&
      isReadable t cwd r.memory r.limits.maxFileSize repo f.filePath

theorem mem_queue_iff {f : Finding} : f ∈ r.queue t cwd repo findings ↔
    f ∈ findings ∧ f.severity.isReviewable = true ∧
      f.filePath ∈ files r.limits.maxFiles findings ∧
        ∃ text, textWithin t cwd r.memory r.limits.maxFileSize repo f.filePath = .ok (some text) := by
  rw [queue, List.mem_filter, mem_reviewable_iff, Bool.and_eq_true, decide_eq_true_eq,
    isReadable_iff, and_assoc]

theorem pairwise_queue (h : findings.Nodup) :
    (r.queue t cwd repo findings).Pairwise (Before findings) :=
  (pairwise_reviewable (pairwise_idxOf_lt h)).filter _

/-- The first findings of the queue are sent. -/
theorem chosen_eq_take_queue (h : textsWithin t cwd r.memory r.limits.maxFileSize repo
      (files r.limits.maxFiles findings) = .ok texts) :
    r.chosen findings texts = (r.queue t cwd repo findings).take (capped r.limits.maxFindings) := by
  rw [chosen, queue]
  refine congrArg _ (List.filter_congr fun f _ => Bool.eq_iff_iff.mpr ?_)
  rw [lookup_textsWithin h, Bool.and_eq_true, decide_eq_true_eq, isReadable_iff]

/-! ### The counts -/

theorem natCast_capped (limit : Int) : (capped limit : Int) = max limit 0 :=
  Int.toNat_eq_max limit

theorem within_initialStats (limits : ReviewLimits) (findings : List Finding) :
    (initialStats findings).Within limits where
  matched_le := le_rfl
  reviewed_le := Int.natCast_nonneg _
  reviewable_le := Int.ofNat_le.mpr (List.length_filter_le _ _)
  reviewed_le_limit := le_max_right _ _
  files_le_limit := le_max_right _ _

/-- Findings are in no more files than there are paths for them. -/
theorem fileCount_le {reviewed : List Finding} {paths : List String}
    (h : ∀ f ∈ reviewed, f.filePath ∈ paths) : fileCount reviewed ≤ paths.length := by
  have hsub : (Finding.byFile reviewed).map Prod.fst ⊆ paths := by
    intro path hpath
    obtain ⟨f, hf, rfl⟩ := Finding.mem_keys_groupBy_iff.mp hpath
    exact h f hf
  have hle := (Finding.nodup_keys_groupBy Finding.filePath reviewed).length_le_of_subset hsub
  rwa [List.length_map] at hle

/-- The counts at the beginning keep to the limits, and leave room for as much advice as findings are
sent. -/
theorem within_startedStats (htexts : textsWithin t cwd r.memory r.limits.maxFileSize repo
      (files r.limits.maxFiles findings) = .ok texts) {matched : Nat}
    (hmatched : matched ≤ (r.chosen findings texts).length) :
    ({ startedStats findings (r.chosen findings texts) with matched := matched } :
      ReviewStats).Within r.limits := by
  have hsent := chosen_eq_take_queue htexts
  have hcount : (r.chosen findings texts).length ≤
      (findings.filter fun f => f.severity.isReviewable).length := by
    rw [hsent, ← length_reviewable]
    exact (List.length_take_le' _ _).trans (List.length_filter_le _ _)
  have hlimit : (r.chosen findings texts).length ≤ capped r.limits.maxFindings := by
    rw [hsent]
    exact List.length_take_le _ _
  have hfiles : fileCount (r.chosen findings texts) ≤ capped r.limits.maxFiles := by
    refine (fileCount_le fun f hf => ?_).trans (length_files_le _ findings)
    rw [hsent] at hf
    exact (mem_queue_iff.mp (List.mem_of_mem_take hf)).2.2.1
  exact
    { matched_le := Int.ofNat_le.mpr hmatched
      reviewed_le := Int.ofNat_le.mpr hcount
      reviewable_le := (within_initialStats r.limits findings).reviewable_le
      reviewed_le_limit := natCast_capped r.limits.maxFindings ▸ Int.ofNat_le.mpr hlimit
      files_le_limit := natCast_capped r.limits.maxFiles ▸ Int.ofNat_le.mpr hfiles }

/-! ### The main statement -/

/-- The findings as they were, which is one way of keeping all they say. -/
theorem forall₂_unchanged (P : Finding → Prop) (findings : List Finding) :
    List.Forall₂ (fun f g =>
        g = { f with remediation := g.remediation, codeExample := g.codeExample } ∧
          (g ≠ f → P f)) findings findings :=
  List.forall₂_same.mpr fun _ _ => ⟨rfl, fun h => absurd rfl h⟩

/-- **A review changes nothing but the advice on the first findings of its queue.** Whatever the
files, the limits and the answer of the model: when a review of findings with distinct identifiers
ends, they come back in their order, each with all it says besides advice. There is an order on those
that are severe enough and in chosen files that can be read — by severity, then by path, then as they
came — such that only the first of these, as many as the limit lets through, can differ. And the
counts fit together and keep to the limits. -/
theorem review_frame (hids : (findings.map Finding.id).Nodup)
    (h : (r.review t cwd repo findings st).1 = .ok (out, stats)) :
    (∃ order : List Finding,
      (∀ f, f ∈ order ↔ f ∈ findings ∧ f.severity.isReviewable = true ∧
        f.filePath ∈ files r.limits.maxFiles findings ∧
          ∃ text, textWithin t cwd r.memory r.limits.maxFileSize repo f.filePath = .ok (some text)) ∧
      order.Pairwise (Before findings) ∧
      List.Forall₂ (fun f g =>
          g = { f with remediation := g.remediation, codeExample := g.codeExample } ∧
            (g ≠ f → f ∈ order.take (capped r.limits.maxFindings))) findings out) ∧
    stats.Within r.limits := by
  have hpairwise : (r.queue t cwd repo findings).Pairwise (Before findings) :=
    pairwise_queue (hids.of_map Finding.id)
  rcases review_cases h with ⟨reason, rfl, rfl⟩ | ⟨texts, answer, htexts, hend⟩
  · -- no model was asked
    exact ⟨⟨_, fun _ => mem_queue_iff, hpairwise, forall₂_unchanged _ _⟩,
      (within_initialStats _ _).skipped _⟩
  · have hsent := chosen_eq_take_queue htexts
    rcases conclude_cases hend with ⟨reason, rfl, rfl⟩ | ⟨advice, rfl, rfl⟩
    · -- there is no answer, or none that can be used
      exact ⟨⟨_, fun _ => mem_queue_iff, hpairwise, forall₂_unchanged _ _⟩,
        (within_startedStats htexts (Nat.zero_le _)).skipped _⟩
    · have hsub : r.chosen findings texts ⊆ findings := fun f hf =>
        (mem_queue_iff.mp (List.mem_of_mem_take (hsent ▸ hf))).1
      exact ⟨⟨_, fun _ => mem_queue_iff, hpairwise, hsent ▸ forall₂_attach repo hids hsub advice⟩,
        within_startedStats htexts (attach_snd_le repo hids _ advice)⟩

/-- An answer with advice for one file. -/
def adviceText : String :=
  "\x7b\"findings\": [\x7b\"file_path\": \"lib/db.py\", \"remediation\": \"fix\"\x7d]\x7d"

/-- A model that gives this answer whatever it is asked. -/
def advisingModel : Model Unit := fun _ _ st => (⟨false, .ofInt 0, .ok adviceText⟩, st)

/-- Advice is attached to the finding that was sent. -/
theorem review_frame_advised :
    let f := findingIn "lib/db.py"
    let g := { f with remediation := some "fix" }
    let stats : ReviewStats := { total := 1, reviewable := 1, reviewed := 1, matched := 1, files := 1 }
    ([f].map Finding.id).Nodup ∧
      (({ model := some advisingModel } : Reviewer Unit).review linkedTree [] "/repo" [f]
        { outside := () }).1 = .ok ([g], stats) ∧
      stats.Within {} ∧ ∃ order : List Finding, order.Pairwise (Before [f]) ∧ f ∈ order.take 10 := by
  intro f g stats
  have hids : ([f].map Finding.id).Nodup := List.nodup_singleton _
  have hadvice : Advice.parse? adviceText = some [⟨"lib/db.py", none, "fix", ""⟩] := by
    decide +kernel
  have htexts : textsWithin linkedTree [] 68719476736 51200 "/repo" ["lib/db.py"] =
      .ok [("lib/db.py", "x\n")] := by
    rw [textsWithin, textWithin_linkedTree]
    rfl
  have hreview : (({ model := some advisingModel } : Reviewer Unit).review linkedTree [] "/repo" [f]
      { outside := () }).1 = .ok ([g], stats) := by
    have hobstacle : ({ model := some advisingModel } : Reviewer Unit).obstacle? [f] = none := by
      simp [obstacle?, initialStats, f, findingIn, Severity.isReviewable]
    have hask : ∀ user, Model.ask advisingModel (.whole 180) systemPrompt user { outside := () } =
        (.ok adviceText, { outside := () }) := fun _ => rfl
    have hchosen : ({ model := some advisingModel } : Reviewer Unit).chosen [f] [("lib/db.py", "x\n")] =
        [f] := by
      simp [chosen, reviewable, f, findingIn, Severity.isReviewable, capped]
    have hattach : attach "/repo" [f] [f] [⟨"lib/db.py", none, "fix", ""⟩] = ([g], 1) := by
      decide +kernel
    rw [review, hobstacle, files_findingIn, htexts]
    simp only [hask, hchosen, conclude, hadvice, hattach]
    rfl
  obtain ⟨⟨order, -, horder, hchanged⟩, hstats⟩ := review_frame hids hreview
  cases hchanged with
  | cons hfirst _ => exact ⟨hids, hreview, hstats, order, horder, hfirst.2 (by simp [f, g, findingIn])⟩

end Reviewer

end RepoAudit
