import Mathlib.Data.Prod.Lex
import RepoAudit.Proofs.Review.Shown
import RepoAudit.Proofs.Sorting

/-!
# The files that come first

Of the files with findings severe enough for review the first few are read: those with the most severe
findings, and among equals those with the smaller paths. What else was found, and in which order, has
no part in it.

* `worstRank?` — the rank of the most severe finding in a file;
* `FileBefore` — a file that comes before another;
* `lookup_scores`, `worstRank?_reviewable` — the scores are these ranks;
* `ranking` — all files with findings severe enough, in their order; `mem_ranking_iff`,
  `nodup_ranking`, `pairwise_ranking` — each is in it once, in its place;
* `ranking_congr`, `Reviewer.begun_congr` — findings that rank the same files, and that begin the same
  review;
* `Reviewer.files_first_of_ranking` — **the chosen files are the first ones, whatever the order of the
  findings, and findings that are not severe enough change nothing that is chosen or sent**.
-/

namespace RepoAudit

namespace Review

variable {fs gs : List Finding} {path a b : String} {r : Nat}

/-! ### The most severe finding of a file -/

/-- The ranks of the findings in a file. -/
def ranksIn (fs : List Finding) (path : String) : List Nat :=
  (fs.filter fun f => f.filePath = path).map fun f => f.severity.rank

/-- The rank of the most severe finding in a file, if there is a finding in it. -/
def worstRank? (fs : List Finding) (path : String) : Option Nat := (ranksIn fs path).min?

/-- A file that comes before another: its most severe finding is more severe, or as severe and its
path is smaller. -/
def FileBefore (fs : List Finding) (a b : String) : Prop :=
  ∃ r s, worstRank? fs a = some r ∧ worstRank? fs b = some s ∧ (r < s ∨ r = s ∧ a < b)

theorem worstRank?_eq_some_iff : worstRank? fs path = some r ↔
    (∃ f ∈ fs, f.filePath = path ∧ f.severity.rank = r) ∧
      ∀ f ∈ fs, f.filePath = path → r ≤ f.severity.rank := by
  have hmem : ∀ rank, rank ∈ ranksIn fs path ↔ ∃ f ∈ fs, f.filePath = path ∧ f.severity.rank = rank := by
    intro rank
    simp [ranksIn, and_assoc]
  rw [worstRank?, List.min?_eq_some_iff, hmem]
  refine and_congr_right fun _ => ⟨fun h f hf hpath => h _ ((hmem _).mpr ⟨f, hf, hpath, rfl⟩), ?_⟩
  intro h rank hrank
  obtain ⟨f, hf, hpath, rfl⟩ := (hmem rank).mp hrank
  exact h f hf hpath

/-- One more finding counts for its file. -/
theorem worstRank?_concat (fs : List Finding) (f : Finding) (path : String) :
    worstRank? (fs ++ [f]) path =
      if f.filePath = path then
        some ((worstRank? fs f.filePath).elim f.severity.rank (min · f.severity.rank))
      else worstRank? fs path := by
  have hranks : ranksIn (fs ++ [f]) path =
      ranksIn fs path ++ if f.filePath = path then [f.severity.rank] else [] := by
    by_cases hpath : f.filePath = path <;> simp [ranksIn, hpath]
  rw [worstRank?, hranks]
  split
  · next hpath =>
    subst hpath
    rw [worstRank?]
    cases ranksIn fs f.filePath with
    | nil => rfl
    | cons rank rest => simp [List.min?, List.foldl_append]
  · rw [List.append_nil, worstRank?]

/-- What is known of a file when one more rank is scored. -/
theorem Scores.lookup_add (table : Scores) (path : String) (rank : Nat) (path' : String) :
    (table.add path rank).lookup path' =
      if path = path' then some ((table.lookup path).elim rank (min · rank))
      else table.lookup path' := by
  induction table with
  | nil =>
    rw [Scores.add, lookup_cons_eq]
    rfl
  | cons first rest ih =>
    obtain ⟨p, r⟩ := first
    rw [Scores.add]
    by_cases hp : p = path
    · subst hp
      rw [if_pos rfl, lookup_cons_eq, lookup_cons_eq, lookup_cons_eq, if_pos rfl, Option.elim_some]
      split <;> rfl
    · rw [if_neg hp, lookup_cons_eq, lookup_cons_eq, lookup_cons_eq, if_neg hp, ih]
      split
      · next hpath => rw [if_neg fun h => hp (hpath.trans h.symm)]
      · rfl

/-- A file is scored with the rank of its most severe finding. -/
theorem lookup_scores (fs : List Finding) (path : String) :
    (scores fs).lookup path = worstRank? fs path := by
  induction fs using List.reverseRecOn generalizing path with
  | nil => rfl
  | append_singleton fs f ih =>
    have hstep : scores (fs ++ [f]) = (scores fs).add f.filePath f.severity.rank := by
      rw [scores, List.foldl_append, List.foldl_cons, List.foldl_nil, scores]
    rw [hstep, Scores.lookup_add, ih, ih, worstRank?_concat]

theorem rank_lt_of_isReviewable {v w : Severity} (hv : v.isReviewable = true)
    (hw : w.isReviewable = false) : v.rank < w.rank := by
  cases v <;> cases w <;> simp_all [Severity.isReviewable, Severity.rank]

/-- Findings that are not severe enough do not count for a file that has others. -/
theorem worstRank?_reviewable
    (h : ∃ f ∈ fs, f.severity.isReviewable = true ∧ f.filePath = path) :
    worstRank? (reviewable fs) path = worstRank? fs path := by
  obtain ⟨g, hg, hsevere, hpath⟩ := h
  ext r
  rw [worstRank?_eq_some_iff, worstRank?_eq_some_iff]
  constructor
  · intro ⟨⟨f, hf, hfpath, hrank⟩, hleast⟩
    refine ⟨⟨f, (mem_reviewable_iff.mp hf).1, hfpath, hrank⟩, ?_⟩
    intro f' hf' hpath'
    have hfg := hleast g (mem_reviewable_iff.mpr ⟨hg, hsevere⟩) hpath
    cases hsevere' : f'.severity.isReviewable with
    | true => exact hleast f' (mem_reviewable_iff.mpr ⟨hf', hsevere'⟩) hpath'
    | false => exact hfg.trans (rank_lt_of_isReviewable hsevere hsevere').le
  · intro ⟨⟨f, hf, hfpath, hrank⟩, hleast⟩
    have hsevere' : f.severity.isReviewable = true := by
      by_contra hnot
      have hlt := rank_lt_of_isReviewable hsevere (Bool.not_eq_true _ ▸ hnot)
      have hle := hleast g hg hpath
      omega
    refine ⟨⟨f, mem_reviewable_iff.mpr ⟨hf, hsevere'⟩, hfpath, hrank⟩, ?_⟩
    intro f' hf' hpath'
    exact hleast f' (mem_reviewable_iff.mp hf').1 hpath'

/-! ### The order of the files -/

theorem FileBefore.asymm (h : FileBefore fs a b) : ¬ FileBefore fs b a := by
  obtain ⟨r, s, ha, hb, hrs⟩ := h
  intro ⟨s', r', hb', ha', hsr⟩
  obtain rfl : r = r' := Option.some.inj (ha.symm.trans ha')
  obtain rfl : s = s' := Option.some.inj (hb.symm.trans hb')
  rcases hrs with hlt | ⟨heq, hpath⟩
  · omega
  · rcases hsr with hgt | ⟨-, hpath'⟩
    · omega
    · exact absurd hpath hpath'.asymm

theorem scorePrecedes_iff {x y : String × Nat} :
    scorePrecedes x y = true ↔ toLex (x.2, x.1) ≤ toLex (y.2, y.1) := by
  rw [scorePrecedes, Bool.or_eq_true, Bool.and_eq_true, decide_eq_true_eq, beq_iff_eq, Text.le_iff,
    Prod.Lex.toLex_le_toLex]

/-- All files with findings severe enough, in the order in which they are chosen. -/
def ranking (fs : List Finding) : List String :=
  ((scores (reviewable fs)).mergeSort scorePrecedes).map Prod.fst

/-- The files that are chosen are the first of all. -/
theorem files_eq_take (limit : Int) (fs : List Finding) :
    files limit fs = (ranking fs).take (capped limit) := by
  rw [files, List.map_take, ranking]

theorem perm_ranking (fs : List Finding) :
    (ranking fs).Perm ((scores (reviewable fs)).map Prod.fst) :=
  (List.mergeSort_perm _ _).map Prod.fst

theorem nodup_keys_scores (fs : List Finding) : ((scores fs).map Prod.fst).Nodup :=
  (keys_foldl (fun table f => keys_scores_add f.filePath f.severity.rank table) fs).1

theorem nodup_ranking (fs : List Finding) : (ranking fs).Nodup :=
  (perm_ranking fs).nodup_iff.mpr (nodup_keys_scores (reviewable fs))

theorem mem_ranking_iff :
    path ∈ ranking fs ↔ ∃ f ∈ fs, f.severity.isReviewable = true ∧ f.filePath = path := by
  rw [(perm_ranking fs).mem_iff, mem_keys_scores_iff]
  simp only [mem_reviewable_iff, and_assoc]

/-- Each file stands before those that it comes before. -/
theorem pairwise_ranking (fs : List Finding) : (ranking fs).Pairwise (FileBefore fs) := by
  have hsorted : ((scores (reviewable fs)).mergeSort scorePrecedes).Pairwise fun x y =>
      scorePrecedes x y = true := by
    apply List.pairwise_mergeSort
    · intro x y z hxy hyz
      exact scorePrecedes_iff.mpr ((scorePrecedes_iff.mp hxy).trans (scorePrecedes_iff.mp hyz))
    · intro x y
      rw [Bool.or_eq_true, scorePrecedes_iff, scorePrecedes_iff]
      exact le_total _ _
  have hdistinct : ((scores (reviewable fs)).mergeSort scorePrecedes).Pairwise fun x y =>
      x.1 ≠ y.1 := List.pairwise_map.mp (nodup_ranking fs)
  have hrank : ∀ x ∈ (scores (reviewable fs)).mergeSort scorePrecedes,
      worstRank? fs x.1 = some x.2 := by
    intro x hx
    have hfile : x.1 ∈ ranking fs := List.mem_map_of_mem hx
    rw [← worstRank?_reviewable (mem_ranking_iff.mp hfile), ← lookup_scores]
    exact lookup_eq_some_of_mem (nodup_keys_scores _) (List.mem_mergeSort.mp hx)
  rw [ranking, List.pairwise_map]
  refine (hsorted.and hdistinct).imp_of_mem ?_
  intro x y hx hy ⟨hle, hne⟩
  refine ⟨x.2, y.2, hrank x hx, hrank y hy, ?_⟩
  rcases (Prod.Lex.toLex_le_toLex).mp (scorePrecedes_iff.mp hle) with hlt | ⟨heq, hpath⟩
  · exact .inl hlt
  · exact .inr ⟨heq, lt_of_le_of_ne hpath hne⟩

/-- The ranking depends on what was found, and not on the order in which it was. -/
theorem ranking_congr (h : ∀ f, f ∈ gs ↔ f ∈ fs) : ranking gs = ranking fs := by
  have hworst : ∀ path, worstRank? gs path = worstRank? fs path := by
    intro path
    ext r
    simp only [worstRank?_eq_some_iff, h]
  have hbefore : FileBefore gs = FileBefore fs := by
    funext a b
    simp only [FileBefore, hworst]
  have hperm : (ranking gs).Perm (ranking fs) := by
    apply (List.perm_ext_iff_of_nodup (nodup_ranking gs) (nodup_ranking fs)).mpr
    intro path
    simp only [mem_ranking_iff, h]
  have hgs := pairwise_ranking gs
  rw [hbefore] at hgs
  refine hperm.eq_of_pairwise ?_ hgs (pairwise_ranking fs)
  intro a b _ _ hab hba
  exact absurd hba hab.asymm

/-- Findings that are not severe enough have no part in what is reviewed. -/
theorem reviewable_congr (h : (gs.filter fun f => f.severity.isReviewable) =
    fs.filter fun f => f.severity.isReviewable) : reviewable gs = reviewable fs := by
  rw [reviewable, h, reviewable]

theorem files_congr (limit : Int) (h : (gs.filter fun f => f.severity.isReviewable) =
    fs.filter fun f => f.severity.isReviewable) : files limit gs = files limit fs := by
  rw [files, reviewable_congr h, files]

end Review

namespace Reviewer

open Review

variable {σ : Type} {r : Reviewer σ} {t : FileTree} {cwd : Location} {repo : String}
  {fs gs : List Finding}

/-! ### What is sent -/

/-- The prompt that a review sends, if it comes to that. -/
def Begun.prompt? : Begun → Option String
  | .sends _ prompt => some prompt
  | .refused _ | .skipped _ => none

/-- With a model there is only one thing in the way of reading files: that no finding is severe
enough. -/
theorem obstacle?_eq_none_iff (hmodel : r.model ≠ none) :
    r.obstacle? fs = none ↔ (fs.filter fun f => f.severity.isReviewable) ≠ [] := by
  rw [obstacle?, if_neg (by simpa using hmodel)]
  cases fs with
  | nil => simp
  | cons f rest =>
    rw [List.isEmpty_cons, if_neg Bool.false_ne_true, initialStats]
    simp only [Int.natCast_eq_zero, List.length_eq_zero_iff]
    split <;> simp_all

/-- Findings that are not severe enough change at most the reason why nothing is sent. -/
theorem begun_congr (h : (gs.filter fun f => f.severity.isReviewable) =
    fs.filter fun f => f.severity.isReviewable) :
    r.begun t cwd repo gs = r.begun t cwd repo fs ∨
      ∃ why why', r.begun t cwd repo gs = .skipped why ∧ r.begun t cwd repo fs = .skipped why' := by
  cases hmodel : r.model with
  | none =>
    have hobstacle : ∀ xs : List Finding, r.obstacle? xs = some .noProvider := by
      intro xs
      rw [obstacle?, hmodel]
      rfl
    right
    refine ⟨.noProvider, .noProvider, ?_, ?_⟩ <;> rw [begun, hobstacle]
  | some model =>
    have hsome : r.model ≠ none := by simp [hmodel]
    by_cases hnone : (fs.filter fun f => f.severity.isReviewable) = []
    · -- nothing is severe enough in either list
      have hskipped : ∀ xs : List Finding, (xs.filter fun f => f.severity.isReviewable) = [] →
          ∃ why, r.begun t cwd repo xs = .skipped why := by
        intro xs hxs
        have hobstacle : r.obstacle? xs ≠ none := fun heq =>
          (obstacle?_eq_none_iff hsome).mp heq hxs
        obtain ⟨why, hwhy⟩ := Option.ne_none_iff_exists'.mp hobstacle
        exact ⟨why, by rw [begun, hwhy]⟩
      obtain ⟨why, hgs⟩ := hskipped gs (h.trans hnone)
      obtain ⟨why', hfs⟩ := hskipped fs hnone
      exact .inr ⟨why, why', hgs, hfs⟩
    · have hgs : r.obstacle? gs = none := (obstacle?_eq_none_iff hsome).mpr (h ▸ hnone)
      have hfs : r.obstacle? fs = none := (obstacle?_eq_none_iff hsome).mpr hnone
      have hchosen : r.chosen gs = r.chosen fs := by
        funext texts
        rw [chosen, chosen, reviewable_congr h]
      left
      rw [begun, begun, hgs, hfs, files_congr _ h, hchosen]

/-- A review leaves everything outside as it was, when no more than the reason for sending nothing is
another. -/
theorem setting_review_congr (st : Setting σ)
    (h : r.begun t cwd repo gs = r.begun t cwd repo fs ∨
      ∃ why why', r.begun t cwd repo gs = .skipped why ∧ r.begun t cwd repo fs = .skipped why') :
    (r.review t cwd repo gs st).2 = (r.review t cwd repo fs st).2 := by
  rw [review_eq, review_eq]
  rcases h with hsame | ⟨why, why', hgs, hfs⟩
  · rw [hsame]
    cases r.begun t cwd repo fs <;> cases r.model <;> rfl
  · rw [hgs, hfs]

/-! ### The main statement -/

/-- **The chosen files are the first ones.** All files with a finding that is critical, high or medium
stand in one order, by the rank of their most severe finding and then by path, and as many of them are
chosen as the limit says. So no file that is left out comes before a chosen one, and the order of the
findings does not matter. And findings of other levels, wherever they are added or taken away, change
neither the choice nor the prompt nor anything that a review does outside. -/
theorem files_first_of_ranking (fs : List Finding) :
    (∃ all : List String, all.Nodup ∧
      (∀ path, path ∈ all ↔ ∃ f ∈ fs, f.severity.isReviewable = true ∧ f.filePath = path) ∧
      all.Pairwise (FileBefore fs) ∧
      ∀ limit : Int, files limit fs = all.take (max limit 0).toNat) ∧
    (∀ limit, ∀ f ∈ fs, f.severity.isReviewable = true → f.filePath ∉ files limit fs →
      ∀ path ∈ files limit fs, FileBefore fs path f.filePath ∧ ¬ FileBefore fs f.filePath path) ∧
    (∀ limit gs, gs.Perm fs → files limit gs = files limit fs) ∧
    ∀ gs, (gs.filter fun f => f.severity.isReviewable) =
        (fs.filter fun f => f.severity.isReviewable) →
      (∀ limit, files limit gs = files limit fs) ∧
      ∀ (σ : Type) (r : Reviewer σ) t cwd repo,
        (r.begun t cwd repo gs).prompt? = (r.begun t cwd repo fs).prompt? ∧
          ∀ st, (r.review t cwd repo gs st).2 = (r.review t cwd repo fs st).2 := by
  have hcapped : ∀ limit : Int, capped limit = (max limit 0).toNat := by
    intro limit
    rw [capped]
    omega
  refine ⟨⟨ranking fs, nodup_ranking fs, fun path => mem_ranking_iff, pairwise_ranking fs, ?_⟩,
    ?_, ?_, ?_⟩
  · intro limit
    rw [files_eq_take, hcapped]
  · intro limit f hf hsevere hleft path hpath
    have hall := pairwise_ranking fs
    rw [files_eq_take] at hleft hpath
    rw [← List.take_append_drop (capped limit) (ranking fs), List.pairwise_append] at hall
    have hranked : f.filePath ∈ ranking fs := mem_ranking_iff.mpr ⟨f, hf, hsevere, rfl⟩
    rw [← List.take_append_drop (capped limit) (ranking fs), List.mem_append] at hranked
    have hbefore := hall.2.2 path hpath f.filePath (hranked.resolve_left hleft)
    exact ⟨hbefore, hbefore.asymm⟩
  · intro limit gs hperm
    rw [files_eq_take, files_eq_take, ranking_congr fun f => hperm.mem_iff]
  · intro gs h
    refine ⟨fun limit => files_congr limit h, fun σ r t cwd repo => ?_⟩
    have hbegun : r.begun t cwd repo gs = r.begun t cwd repo fs ∨ ∃ why why',
        r.begun t cwd repo gs = .skipped why ∧ r.begun t cwd repo fs = .skipped why' :=
      begun_congr h
    refine ⟨?_, fun st => setting_review_congr st hbegun⟩
    rcases hbegun with hsame | ⟨why, why', hgs, hfs⟩
    · rw [hsame]
    · rw [hgs, hfs]
      rfl

end Reviewer

end RepoAudit
