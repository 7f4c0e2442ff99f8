import Mathlib.Algebra.GroupWithZero.Nat
import RepoAudit.Proofs.Grouping

/-!
# Views of a list of findings

The findings of a scan are looked at in five ways: by file, by severity, counted, as a list of files,
and down to some severity. Each view is made in a pass of its own. They agree, because all of them
are read off the two tables of groups.

* `Finding.Partitions` — what it means that a table of groups splits a list by a key;
  `Finding.partitions_groupBy` — grouping does so;
* `Finding.countBySeverity_eq` — the counts are the sizes of the groups;
* `Finding.uniqueFiles_eq` — the files are the keys of the groups, the empty path apart;
* `Finding.upTo` — the findings of all groups down to some severity; `Finding.atLeast_eq` — these are
  the ones that are kept when findings are filtered by a word for that severity;
* `Finding.views_agree` — **all five views, from the two tables**.
-/

namespace RepoAudit

/-- The written name of a level is a word for it. -/
theorem Severity.ofToken_name (v : Severity) : Severity.ofToken v.name = v := by
  cases v <;> decide

namespace Finding

section

variable {α β : Type} [DecidableEq α]

/-! ### Groups -/

/-- A table of groups splits a list by a key: there is one group for each key that occurs, in order of
first occurrence; a group is the part of the list with its key, in order; and together the groups hold
every item exactly as often as the list does. -/
structure Partitions (key : β → α) (xs : List β) (groups : List (α × List β)) : Prop where
  keys : groups.map Prod.fst = (xs.map key).eraseDups
  group : ∀ g ∈ groups, g.2 = xs.filter (key · = g.1)
  perm : (groups.flatMap Prod.snd).Perm xs
  sizes : (groups.map fun g => g.2.length).sum = xs.length

/-- One more item in its group is one more item. -/
theorem flatMap_addToGroup_perm (k : α) (x : β) (groups : List (α × List β)) :
    ((addToGroup k x groups).flatMap Prod.snd).Perm (groups.flatMap Prod.snd ++ [x]) := by
  induction groups with
  | nil => exact .refl _
  | cons first rest ih =>
    obtain ⟨k', ys⟩ := first
    rw [addToGroup]
    split
    · rw [List.flatMap_cons, List.flatMap_cons, List.append_assoc, List.append_assoc]
      exact List.perm_append_comm.append_left ys
    · rw [List.flatMap_cons, List.flatMap_cons, List.append_assoc]
      exact ih.append_left ys

theorem flatMap_groupBy_perm (key : β → α) (xs : List β) :
    ((groupBy key xs).flatMap Prod.snd).Perm xs := by
  induction xs using List.reverseRecOn with
  | nil => exact .nil
  | append_singleton xs x ih =>
    rw [groupBy, List.foldl_append, List.foldl_cons, List.foldl_nil, ← groupBy]
    exact (flatMap_addToGroup_perm _ _ _).trans (ih.append_right [x])

theorem partitions_groupBy (key : β → α) (xs : List β) : Partitions key xs (groupBy key xs) where
  keys := map_fst_groupBy key xs
  group := by
    rw [groupBy_eq, List.forall_mem_map]
    exact fun _ _ => rfl
  perm := flatMap_groupBy_perm key xs
  sizes := by
    rw [← List.length_flatMap]
    exact (flatMap_groupBy_perm key xs).length_eq

theorem Partitions.mem_group_iff {key : β → α} {xs : List β} {groups : List (α × List β)}
    (h : Partitions key xs groups) {g : α × List β} (hg : g ∈ groups) {x : β} :
    x ∈ g.2 ↔ x ∈ xs ∧ key x = g.1 := by
  rw [h.group g hg, List.mem_filter, decide_eq_true_eq]

/-- The group of an item is in the table. -/
theorem Partitions.exists_group {key : β → α} {xs : List β} {groups : List (α × List β)}
    (h : Partitions key xs groups) {x : β} (hx : x ∈ xs) : ∃ g ∈ groups, g.1 = key x := by
  have hkey : key x ∈ groups.map Prod.fst := by
    rw [h.keys, List.mem_eraseDups]
    exact List.mem_map_of_mem hx
  exact List.mem_map.mp hkey

end

variable {fs : List Finding}

/-! ### Counts -/

/-- The sizes of groups. -/
def sizes (groups : List (Severity × List Finding)) : List (Severity × Nat) :=
  groups.map fun g => (g.1, g.2.length)

/-- Counting one more finding is adding it to its group. -/
theorem addToCount_sizes (groups : List (Severity × List Finding)) (f : Finding) :
    addToCount f.severity (sizes groups) = sizes (addToGroup f.severity f groups) := by
  induction groups with
  | nil => rfl
  | cons first rest ih =>
    obtain ⟨s, ys⟩ := first
    rw [sizes, List.map_cons, addToCount, addToGroup]
    split
    · rw [sizes, List.map_cons, List.length_append, List.length_singleton]
    · rw [← sizes, ih, sizes, sizes, List.map_cons]

/-- The counts are the sizes of the groups. -/
theorem countBySeverity_eq (fs : List Finding) :
    countBySeverity fs = sizes (bySeverity fs) :=
  @List.foldl_hom _ _ Finding sizes (fun groups f => addToGroup f.severity f groups)
    (fun counts f => addToCount f.severity counts) fs [] addToCount_sizes

/-! ### Files -/

theorem uniqueScan_eq (seen : List String) (fs : List Finding) :
    uniqueScan seen fs =
      ((fs.map filePath).filter fun path => path ≠ "" ∧ path ∉ seen).eraseDups := by
  induction fs generalizing seen with
  | nil => rfl
  | cons f rest ih =>
    rw [uniqueScan, List.map_cons]
    split
    · next hskip =>
      rw [List.filter_cons_of_neg (by simpa [or_iff_not_imp_left] using hskip), ih]
    · next hnew =>
      rw [List.filter_cons_of_pos (by simpa [not_or] using hnew), List.eraseDups_cons, ih,
        List.filter_filter]
      congr 2
      refine List.filter_congr fun path _ => ?_
      rw [Bool.eq_iff_iff]
      simp only [List.mem_cons, not_or, decide_eq_true_eq, Bool.and_eq_true, Bool.not_eq_true',
        beq_eq_false_iff_ne]
      exact and_left_comm

/-- The files are the keys of the groups by file, without the empty path. -/
theorem uniqueFiles_eq (fs : List Finding) :
    uniqueFiles fs = ((byFile fs).map Prod.fst).filter (· ≠ "") := by
  rw [uniqueFiles, uniqueScan_eq, byFile, map_fst_groupBy, filter_eraseDups]
  simp

/-! ### Findings down to some severity -/

/-- The findings of the groups down to some severity. -/
def upTo (v : Severity) (groups : List (Severity × List Finding)) : List Finding :=
  (groups.filter fun g => g.1.rank ≤ v.rank).flatMap Prod.snd

theorem mem_upTo_bySeverity_iff {v : Severity} {f : Finding} :
    f ∈ upTo v (bySeverity fs) ↔ f ∈ fs ∧ f.severity.rank ≤ v.rank := by
  have hgroups : Partitions severity fs (bySeverity fs) := partitions_groupBy severity fs
  rw [upTo, List.mem_flatMap]
  constructor
  · rintro ⟨g, hg, hf⟩
    obtain ⟨hg, hrank⟩ := List.mem_filter.mp hg
    obtain ⟨hf, hkey⟩ := (hgroups.mem_group_iff hg).mp hf
    exact ⟨hf, by rw [hkey]; exact of_decide_eq_true hrank⟩
  · rintro ⟨hf, hrank⟩
    obtain ⟨g, hg, hkey⟩ := hgroups.exists_group hf
    rw [← hkey] at hrank
    exact ⟨g, List.mem_filter.mpr ⟨hg, decide_eq_true hrank⟩,
      (hgroups.mem_group_iff hg).mpr ⟨hf, hkey.symm⟩⟩

/-- The findings that are at least as severe as a word says are those of the groups down to the
severity that the word stands for. -/
theorem atLeast_eq (token : String) (fs : List Finding) :
    atLeast token fs = fs.filter (· ∈ upTo (Severity.ofToken token) (bySeverity fs)) := by
  refine List.filter_congr fun f hf => ?_
  rw [decide_eq_decide, mem_upTo_bySeverity_iff, and_iff_right hf]

/-- **The views agree.** The groups by file and the groups by severity split the findings; the counts
are the sizes of the groups by severity, in their order and under no other key; the files are the keys
of the groups by file that are not empty; and filtering by any word, or by a severity, keeps in order
the findings of the groups whose rank is at most that of the severity that is meant. -/
theorem views_agree (fs : List Finding) :
    Partitions filePath fs (byFile fs) ∧ Partitions severity fs (bySeverity fs) ∧
      countBySeverity fs = sizes (bySeverity fs) ∧
      uniqueFiles fs = ((byFile fs).map Prod.fst).filter (· ≠ "") ∧
      (∀ token : String,
        atLeast token fs = fs.filter (· ∈ upTo (Severity.ofToken token) (bySeverity fs))) ∧
      ∀ v : Severity, atLeast v.name fs = fs.filter (· ∈ upTo v (bySeverity fs)) := by
  refine ⟨partitions_groupBy filePath fs, partitions_groupBy severity fs, countBySeverity_eq fs,
    uniqueFiles_eq fs, fun token => atLeast_eq token fs, fun v => ?_⟩
  rw [atLeast_eq, Severity.ofToken_name]

end Finding

end RepoAudit
