import RepoAudit.Proofs.Grouping
import RepoAudit.Review.Choice

/-!
# What is chosen for review

The findings sent to review are those severe enough, and the files those that such findings are in,
a limited number of them.

* `mem_reviewable_iff`, `length_reviewable` — the findings severe enough;
* `mem_keys_scores_iff` — the files that are scored;
* `exists_of_mem_files`, `length_files_le` — the files that are chosen.
-/

namespace RepoAudit.Review

variable {fs : List Finding} {f : Finding} {limit : Int} {path : String}

/-! ### Findings -/

theorem mem_reviewable_iff : f ∈ reviewable fs ↔ f ∈ fs ∧ f.severity.isReviewable = true := by
  rw [reviewable, List.mem_mergeSort, List.mem_filter]

theorem length_reviewable (fs : List Finding) :
    (reviewable fs).length = (fs.filter fun f => f.severity.isReviewable).length := by
  rw [reviewable, List.length_mergeSort]

/-! ### Files -/

theorem keys_scores_add (path : String) (rank : Nat) (table : Scores) :
    (table.add path rank).map Prod.fst =
      if path ∈ table.map Prod.fst then table.map Prod.fst else table.map Prod.fst ++ [path] := by
  refine keys_add rfl (fun p r rest => ?_) table
  rw [Scores.add]
  split <;> rfl

/-- The files of findings are scored. -/
theorem mem_keys_scores_iff : path ∈ (scores fs).map Prod.fst ↔ ∃ f ∈ fs, f.filePath = path :=
  (keys_foldl (fun table f => keys_scores_add f.filePath f.severity.rank table) fs).2 path

theorem length_files_le (limit : Int) (fs : List Finding) : (files limit fs).length ≤ capped limit := by
  rw [files, List.length_map]
  exact List.length_take_le _ _

end RepoAudit.Review
