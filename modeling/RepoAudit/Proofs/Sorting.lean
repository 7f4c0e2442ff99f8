import Mathlib.Data.List.Nodup
import Mathlib.Data.String.Basic
import RepoAudit.Aggregate
import RepoAudit.Review.Choice

/-!
# Sorting

Findings are sorted by severity, or by severity and then by path, and items that tie keep the order
in which they came.

* `pairwise_mergeSort_stable` — a sorted list is in order, and of two items that tie the one that
  stood first before stands first after;
* `Finding.Ranked`, `Finding.StablyRanked` — findings by severity, and what it means that they were put
  in this order; `Finding.stablyRanked_ranked` — `Finding.ranked` does so;
* `Text.le_iff` — texts are in their usual linear order;
* `Review.precedes_iff`, `Review.pairwise_reviewable` — the order in which findings are sent to
  review.
-/

namespace RepoAudit

/-- A sorted list is in order, and items that tie are in an order in which they were before. -/
theorem pairwise_mergeSort_stable {α : Type} {le : α → α → Bool} {R : α → α → Prop} {xs : List α}
    (htrans : ∀ a b c, le a b = true → le b c = true → le a c = true)
    (htotal : ∀ a b, (le a b || le b a) = true) (h : xs.Pairwise R) :
    (xs.mergeSort le).Pairwise fun a b => le a b = true ∧ (le b a = true → R a b) := by
  -- the items are numbered, so that a tie is decided by the number
  rw [← List.mergeSort_zipIdx, List.pairwise_map]
  have hperm : (xs.zipIdx.mergeSort (List.zipIdxLE le)).Perm xs.zipIdx := List.mergeSort_perm _ _
  have hsorted : (xs.zipIdx.mergeSort (List.zipIdxLE le)).Pairwise fun x y =>
      List.zipIdxLE le x y = true :=
    List.pairwise_mergeSort (List.zipIdxLE_trans htrans) (List.zipIdxLE_total htotal) _
  have hdistinct : (xs.zipIdx.mergeSort (List.zipIdxLE le)).Pairwise fun x y => x.2 ≠ y.2 := by
    have hnumbers : (xs.zipIdx.map Prod.snd).Nodup := by
      rw [List.zipIdx_map_snd]
      exact List.nodup_range'
    exact List.pairwise_map.mp ((hperm.map Prod.snd).nodup_iff.mpr hnumbers)
  refine (hsorted.and hdistinct).imp_of_mem ?_
  rintro ⟨a, i⟩ ⟨b, j⟩ ha hb ⟨hle, hne⟩
  rw [List.zipIdxLE] at hle
  split at hle
  · next hab =>
    refine ⟨hab, fun hba => ?_⟩
    rw [if_pos hba, decide_eq_true_eq] at hle
    have hij : i < j := Nat.lt_of_le_of_ne hle hne
    obtain ⟨hi, hai⟩ := List.getElem?_eq_some_iff.mp
      (List.mem_zipIdx_iff_getElem?.mp (hperm.mem_iff.mp ha))
    obtain ⟨hj, hbj⟩ := List.getElem?_eq_some_iff.mp
      (List.mem_zipIdx_iff_getElem?.mp (hperm.mem_iff.mp hb))
    rw [← hai, ← hbj]
    exact List.pairwise_iff_getElem.mp h i j hi hj hij
  · cases hle

namespace Finding

variable {fs : List Finding}

/-! ### The order of findings by severity -/

/-- The most severe findings come first. -/
def Ranked (fs : List Finding) : Prop := fs.Pairwise fun f g => f.severity.rank ≤ g.severity.rank

instance (fs : List Finding) : Decidable (Ranked fs) :=
  inferInstanceAs (Decidable (fs.Pairwise fun f g => f.severity.rank ≤ g.severity.rank))

/-- Whether findings are in order depends on their severities alone. -/
theorem ranked_iff_map_severity :
    Ranked fs ↔ (fs.map severity).Pairwise fun v w => v.rank ≤ w.rank := by
  rw [Ranked, List.pairwise_map]

/-- The same findings, the most severe first, and those of one severity in the order in which they
were. -/
structure StablyRanked (fs gs : List Finding) : Prop where
  perm : gs.Perm fs
  ranked : Ranked gs
  stable : ∀ v : Severity, gs.filter (fun f => f.severity = v) = fs.filter fun f => f.severity = v

theorem rankLE_trans (a b c : Finding) (hab : decide (a.severity.rank ≤ b.severity.rank) = true)
    (hbc : decide (b.severity.rank ≤ c.severity.rank) = true) :
    decide (a.severity.rank ≤ c.severity.rank) = true := by
  rw [decide_eq_true_eq] at hab hbc ⊢
  omega

theorem rankLE_total (a b : Finding) : (decide (a.severity.rank ≤ b.severity.rank) ||
    decide (b.severity.rank ≤ a.severity.rank)) = true := by
  rw [Bool.or_eq_true, decide_eq_true_eq, decide_eq_true_eq]
  omega

theorem ranked_ranked (fs : List Finding) : Ranked (ranked fs) :=
  (List.pairwise_mergeSort rankLE_trans rankLE_total fs).imp of_decide_eq_true

/-- Findings in order stay as they are when they are sorted. -/
theorem ranked_eq_self (h : Ranked fs) : ranked fs = fs :=
  List.mergeSort_of_pairwise (h.imp decide_eq_true)

/-- Sorting leaves the findings of one severity in the order in which they were. -/
theorem filter_severity_ranked (fs : List Finding) (v : Severity) :
    (ranked fs).filter (fun f => f.severity = v) = fs.filter fun f => f.severity = v := by
  have hperm : ((ranked fs).filter fun f => f.severity = v).Perm
      (fs.filter fun f => f.severity = v) := (List.mergeSort_perm _ _).filter _
  have hequal : (fs.filter fun f => f.severity = v).Pairwise fun f g =>
      decide (f.severity.rank ≤ g.severity.rank) = true := by
    refine List.pairwise_of_forall_mem_list ?_
    intro f hf g hg
    have hfv : f.severity = v := by simpa using (List.mem_filter.mp hf).2
    have hgv : g.severity = v := by simpa using (List.mem_filter.mp hg).2
    simp [hfv, hgv]
  -- findings that tie are a sublist before and after
  have hsub : (fs.filter fun f => f.severity = v).Sublist (ranked fs) :=
    List.sublist_mergeSort rankLE_trans rankLE_total hequal List.filter_sublist
  have hfiltered := hsub.filter fun f => decide (f.severity = v)
  simp only [List.filter_filter, Bool.and_self] at hfiltered
  exact (hfiltered.eq_of_length hperm.length_eq.symm).symm

theorem stablyRanked_ranked (fs : List Finding) : StablyRanked fs (ranked fs) where
  perm := List.mergeSort_perm _ _
  ranked := ranked_ranked fs
  stable := filter_severity_ranked fs

end Finding

/-! ### The order of texts -/

theorem Text.le_iff {a b : String} : Text.le a b = true ↔ a ≤ b := by
  rw [Text.le, Bool.not_eq_true', decide_eq_false_iff_not, not_lt]

namespace Review

/-! ### The order of findings in a review -/

/-- Findings are sent to review by severity, then by path. -/
theorem precedes_iff {a b : Finding} : precedes a b = true ↔
    a.severity.rank < b.severity.rank ∨
      a.severity.rank = b.severity.rank ∧ a.filePath ≤ b.filePath := by
  rw [precedes, Bool.or_eq_true, Bool.and_eq_true, decide_eq_true_eq, beq_iff_eq, Text.le_iff]

theorem precedes_trans (a b c : Finding) (hab : precedes a b = true) (hbc : precedes b c = true) :
    precedes a c = true := by
  rw [precedes_iff] at hab hbc ⊢
  rcases hab with hab | ⟨hab, hpab⟩
  · rcases hbc with hbc | ⟨hbc, -⟩
    · exact .inl (hab.trans hbc)
    · exact .inl (hbc ▸ hab)
  · rcases hbc with hbc | ⟨hbc, hpbc⟩
    · exact .inl (hab ▸ hbc)
    · exact .inr ⟨hab.trans hbc, hpab.trans hpbc⟩

theorem precedes_total (a b : Finding) : (precedes a b || precedes b a) = true := by
  rw [Bool.or_eq_true, precedes_iff, precedes_iff]
  rcases Nat.lt_trichotomy a.severity.rank b.severity.rank with hlt | heq | hgt
  · exact .inl (.inl hlt)
  · rcases le_total a.filePath b.filePath with hle | hle
    · exact .inl (.inr ⟨heq, hle⟩)
    · exact .inr (.inr ⟨heq.symm, hle⟩)
  · exact .inr (.inl hgt)

/-- The findings severe enough for review go by severity, then by path, then by their order before. -/
theorem pairwise_reviewable {R : Finding → Finding → Prop} {fs : List Finding}
    (h : fs.Pairwise R) :
    (reviewable fs).Pairwise fun a b =>
      a.severity.rank < b.severity.rank ∨
        a.severity.rank = b.severity.rank ∧
          (a.filePath < b.filePath ∨ a.filePath = b.filePath ∧ R a b) := by
  refine (pairwise_mergeSort_stable precedes_trans precedes_total
    (h.filter fun f => f.severity.isReviewable)).imp ?_
  rintro a b ⟨hab, hties⟩
  rcases precedes_iff.mp hab with hlt | ⟨heq, hle⟩
  · exact .inl hlt
  · refine .inr ⟨heq, ?_⟩
    rcases hle.lt_or_eq with hlt | hpath
    · exact .inl hlt
    · exact .inr ⟨hpath, hties (precedes_iff.mpr (.inr ⟨heq.symm, hpath.ge⟩))⟩

end Review

end RepoAudit
