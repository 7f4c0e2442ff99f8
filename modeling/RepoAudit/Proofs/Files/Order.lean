import RepoAudit.Proofs.Files.Walk

/-!
# The order of entries

A file system lists the entries of a directory in any order. Where a path leads and which entries lie
below a directory does not depend on it; only the order in which a walk finds them does.

* `FileTree.find?_eq_some_iff`, `WellFormed.entryAt?_perm` — what stands at a location, in any order;
* `WellFormed.perm` — the same entries in another order are a tree as well;
* `FileTree.locate_congr`, `FileTree.isCounted_congr`, `FileTree.Walkable.congr` — what depends on the
  entries alone;
* `WellFormed.filesFound_perm` — **a walk finds the same files**, in another order.
-/

namespace RepoAudit.FileTree

variable {t t' : FileTree} {cwd loc root place : Location} {e : Entry} {path : String}
  {keep : String → Bool} {levels : Nat}

theorem find?_eq_some_iff {entries : List (Location × Entry)}
    (hnodup : (entries.map Prod.fst).Nodup) : find? loc entries = some e ↔ (loc, e) ∈ entries := by
  induction entries with
  | nil => simp [find?]
  | cons first rest ih =>
    obtain ⟨l, e'⟩ := first
    rw [List.map_cons, List.nodup_cons] at hnodup
    rw [find?, List.mem_cons, Prod.mk.injEq]
    by_cases hl : l = loc
    · subst hl
      have hrest : (l, e) ∉ rest := fun hmem => hnodup.1 (List.mem_map.mpr ⟨_, hmem, rfl⟩)
      simp [hrest, eq_comm]
    · rw [if_neg hl, ih hnodup.2]
      simp [Ne.symm hl]

/-- What stands at a location does not depend on the order of the entries. -/
theorem WellFormed.entryAt?_perm (h : t.WellFormed) (hperm : t'.entries.Perm t.entries)
    (loc : Location) : t'.entryAt? loc = t.entryAt? loc := by
  have hnodup : (t'.entries.map Prod.fst).Nodup := (hperm.map Prod.fst).nodup_iff.mpr h.nodup
  rw [entryAt?, entryAt?]
  split
  · rfl
  · apply Option.ext
    intro e
    rw [find?_eq_some_iff hnodup, find?_eq_some_iff h.nodup, hperm.mem_iff]

/-- The same entries in another order are a tree as well. -/
theorem WellFormed.perm (h : t.WellFormed) (hperm : t'.entries.Perm t.entries) : t'.WellFormed where
  nodup := (hperm.map Prod.fst).nodup_iff.mpr h.nodup
  rooted := fun hroot => h.rooted ((hperm.map Prod.fst).mem_iff.mp hroot)
  parent := by
    intro loc name hsome
    rw [h.entryAt?_perm hperm] at hsome ⊢
    exact h.parent loc name hsome
  named := fun l hl => h.named l ((hperm.map Prod.fst).mem_iff.mp hl)

/-! ### What depends on the entries alone -/

theorem locate_congr (hsame : ∀ l, t'.entryAt? l = t.entryAt? l) {followLast : Bool}
    (h : t.locate cwd followLast path = .ok place) :
    t'.locate cwd followLast path = .ok place := by
  rw [locate_eq_ok_iff] at h ⊢
  exact ⟨h.1, h.2.1, h.2.2.1, locateFrom_mono (fun l e he => (hsame l).trans he) h.2.2.2⟩

theorem isDirectoryAt_iff : t.isDirectoryAt loc = true ↔
    ∃ place, t.locateFrom true maxLinks [] loc = .ok place ∧ t.entryAt? place = some .directory := by
  rw [isDirectoryAt]
  cases t.locateFrom true maxLinks [] loc <;> simp

theorem isDirectoryAt_congr (hsame : ∀ l, t'.entryAt? l = t.entryAt? l) (loc : Location) :
    t'.isDirectoryAt loc = t.isDirectoryAt loc := by
  rw [Bool.eq_iff_iff, isDirectoryAt_iff, isDirectoryAt_iff]
  constructor
  · rintro ⟨place, hplace, hdir⟩
    exact ⟨place, locateFrom_mono (fun l e he => (hsame l).symm.trans he) hplace,
      (hsame place).symm.trans hdir⟩
  · rintro ⟨place, hplace, hdir⟩
    exact ⟨place, locateFrom_mono (fun l e he => (hsame l).trans he) hplace, (hsame place).trans hdir⟩

theorem isCounted_congr (hsame : ∀ l, t'.entryAt? l = t.entryAt? l) (loc : Location) :
    t'.isCounted loc = t.isCounted loc := by
  rw [isCounted, isCounted, hsame, isDirectoryAt_congr hsame]

theorem leadsToDirectory_iff : t.leadsToDirectory cwd path = true ↔
    ∃ place, t.locate cwd true path = .ok place ∧ t.entryAt? place = some .directory := by
  rw [leadsToDirectory]
  cases t.locate cwd true path <;> simp

theorem leadsToDirectory_congr (hsame : ∀ l, t'.entryAt? l = t.entryAt? l) (cwd : Location)
    (path : String) : t'.leadsToDirectory cwd path = t.leadsToDirectory cwd path := by
  rw [Bool.eq_iff_iff, leadsToDirectory_iff, leadsToDirectory_iff]
  refine exists_congr fun place => and_congr ⟨?_, locate_congr hsame⟩ (by rw [hsame])
  exact locate_congr fun l => (hsame l).symm

theorem Walkable.congr (hsame : ∀ l, t'.entryAt? l = t.entryAt? l)
    (hwalk : t.Walkable cwd keep levels path root) : t'.Walkable cwd keep levels path root where
  short := fun names hkept hdir => hwalk.short names hkept ((hsame _).symm.trans hdir)
  shallow := by
    intro names name hkept hlooks
    refine hwalk.shallow names name hkept ?_
    rw [looksLikeDirectory] at hlooks ⊢
    rwa [hsame, leadsToDirectory_congr hsame] at hlooks

theorem ShowsLinks.congr (hsame : ∀ l, t'.entryAt? l = t.entryAt? l)
    (hshows : t.ShowsLinks cwd keep path root) : t'.ShowsLinks cwd keep path root := by
  intro names name target hkept hentry hdir
  rw [leadsToDirectory_congr hsame]
  exact hshows names name target hkept ((hsame _).symm.trans hentry)
    ((isDirectoryAt_congr hsame _).symm.trans hdir)

/-- **A walk finds the same files** in whatever order the entries are listed. -/
theorem WellFormed.filesFound_perm (h : t.WellFormed) (hperm : t'.entries.Perm t.entries)
    (hdir : t.entryAt? root = some .directory) :
    (t'.filesFound keep levels root).Perm (t.filesFound keep levels root) := by
  have hsame := h.entryAt?_perm hperm
  have h' := h.perm hperm
  refine (List.perm_ext_iff_of_nodup (nodup_filesFound h' root) (nodup_filesFound h root)).mpr ?_
  intro l
  rw [mem_filesFound_iff h' ((hsame root).trans hdir), mem_filesFound_iff h hdir, isCounted_congr hsame]

end RepoAudit.FileTree
