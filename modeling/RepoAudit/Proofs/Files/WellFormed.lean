import Mathlib.Data.List.Induction
import Mathlib.Data.List.Nodup
import RepoAudit.Files.Resolve
import RepoAudit.Proofs.Files.Changes
import RepoAudit.Proofs.Path

/-!
# Trees as file systems have them

Every entry has a location of its own, stands in a directory, and has a name.

* `FileTree.WellFormed` — such a tree; `WellFormed.put`, `WellFormed.removeBelow` — what keeps it so;
* `WellFormed.above`, `WellFormed.isFileName` — what stands above an entry, and what names it has;
* `WellFormed.entryAt?_removeBelow_of_free` — what has been added where nothing was can be removed
  without a trace.
-/

namespace RepoAudit.FileTree

variable {t : FileTree} {loc l : Location} {name : String}

/-- The locations that have an entry. -/
def locations (t : FileTree) : List Location := t.entries.map Prod.fst

/-- A name as a file system has it. -/
structure IsFileName (name : String) : Prop where
  isName : Path.IsName name
  noSlash : '/' ∉ name.toList
  passable : Path.IsPassable name
  short : (Text.nameBytes name).length ≤ maxNameLength

theorem isFileName_iff : IsFileName name ↔ Path.IsName name ∧ '/' ∉ name.toList ∧
    Path.IsPassable name ∧ (Text.nameBytes name).length ≤ maxNameLength :=
  ⟨fun h => ⟨h.isName, h.noSlash, h.passable, h.short⟩, fun h => ⟨h.1, h.2.1, h.2.2.1, h.2.2.2⟩⟩

instance (name : String) : Decidable (IsFileName name) := decidable_of_iff _ isFileName_iff.symm

/-- A tree as a file system has it: every location has one entry at most, the root has none of its
own, what has an entry stands in a directory, and all names are names. -/
structure WellFormed (t : FileTree) : Prop where
  nodup : t.locations.Nodup
  rooted : [] ∉ t.locations
  parent : ∀ loc name, (t.entryAt? (loc ++ [name])).isSome → t.entryAt? loc = some .directory
  named : ∀ l ∈ t.locations, ∀ name ∈ l, IsFileName name

theorem isSome_find?_iff (loc : Location) (entries : List (Location × Entry)) :
    (find? loc entries).isSome ↔ loc ∈ entries.map Prod.fst := by
  induction entries with
  | nil => simp [find?]
  | cons first rest ih =>
    obtain ⟨l', e⟩ := first
    rw [find?, List.map_cons, List.mem_cons]
    by_cases heq : l' = loc
    · simp [heq]
    · rw [if_neg heq, ih]
      simp [Ne.symm heq]

theorem isSome_entryAt?_iff (hne : loc ≠ []) : (t.entryAt? loc).isSome ↔ loc ∈ t.locations := by
  rw [entryAt?, if_neg hne]
  exact isSome_find?_iff loc t.entries

/-- Whether a tree is well-formed is seen by looking at its entries one by one. -/
theorem wellFormed_iff : t.WellFormed ↔ t.locations.Nodup ∧ [] ∉ t.locations ∧
    (∀ l ∈ t.locations, t.entryAt? l.dropLast = some .directory) ∧
    ∀ l ∈ t.locations, ∀ name ∈ l, IsFileName name := by
  constructor
  · intro h
    refine ⟨h.nodup, h.rooted, fun l hl => ?_, h.named⟩
    have hne : l ≠ [] := fun hnil => h.rooted (hnil ▸ hl)
    apply h.parent l.dropLast (l.getLast hne)
    rw [List.dropLast_append_getLast hne]
    exact (isSome_entryAt?_iff hne).mpr hl
  · rintro ⟨hnodup, hrooted, hparent, hnamed⟩
    refine ⟨hnodup, hrooted, fun loc name hsome => ?_, hnamed⟩
    have hl := (isSome_entryAt?_iff (by simp)).mp hsome
    simpa using hparent _ hl

instance (t : FileTree) : Decidable t.WellFormed := decidable_of_iff _ wellFormed_iff.symm

/-- What has an entry has names that a file system lets be. -/
theorem WellFormed.isFileName (h : t.WellFormed) (hl : (t.entryAt? l).isSome) (hname : name ∈ l) :
    IsFileName name :=
  h.named l ((isSome_entryAt?_iff (List.ne_nil_of_mem hname)).mp hl) name hname

/-- Every location above one that has an entry is a directory. -/
theorem WellFormed.above (h : t.WellFormed) (hl : (t.entryAt? l).isSome) (habove : loc <+: l)
    (hne : loc ≠ l) : t.entryAt? loc = some .directory := by
  induction l using List.reverseRecOn with
  | nil => exact absurd (List.prefix_nil.mp habove) hne
  | append_singleton l name ih =>
    have hparent : t.entryAt? l = some .directory := h.parent l name hl
    rcases List.prefix_concat_iff.mp habove with heq | habove
    · exact absurd heq hne
    · by_cases heq : loc = l
      · exact heq ▸ hparent
      · exact ih (by rw [hparent]; rfl) habove heq

/-- Nothing stands below a location that has no entry. -/
theorem WellFormed.entryAt?_eq_none (h : t.WellFormed) (hnone : t.entryAt? loc = none)
    (habove : loc <+: l) : t.entryAt? l = none := by
  by_cases heq : loc = l
  · exact heq ▸ hnone
  · by_contra hsome
    have hdir := h.above (Option.isSome_iff_ne_none.mpr hsome) habove heq
    rw [hnone] at hdir
    cases hdir

/-- A tree that differs from another one only at and below a location that is free there is that tree
again once they are removed. -/
theorem WellFormed.entryAt?_removeBelow_of_free {t' : FileTree} (h : t.WellFormed)
    (hfree : t.entryAt? loc = none) (hothers : ∀ l, ¬ loc <+: l → t'.entryAt? l = t.entryAt? l)
    (l : Location) : FileTree.entryAt? (t'.removeBelow loc) l = t.entryAt? l := by
  by_cases hbelow : loc <+: l
  · have hnone : t.entryAt? l = none := h.entryAt?_eq_none hfree hbelow
    have hne : l ≠ [] := by
      rintro rfl
      cases hnone
    rw [entryAt?_removeBelow _ hne hbelow, hnone]
  · rw [entryAt?_removeBelow_other _ hbelow, hothers l hbelow]

/-! ### What keeps a tree well-formed -/

/-- What is new may be put into a directory, under a name that a file system lets be. -/
theorem WellFormed.put (h : t.WellFormed) (hparent : t.entryAt? loc = some .directory)
    (hfree : t.entryAt? (loc ++ [name]) = none) (hname : IsFileName name) (e : Entry) :
    (t.put (loc ++ [name]) e).WellFormed := by
  have hlocations : (t.put (loc ++ [name]) e).locations =
      t.locations.filter (fun l => decide (l ≠ loc ++ [name])) ++ [loc ++ [name]] := by
    show ((t.entries.filter fun x => decide (x.1 ≠ loc ++ [name])) ++
      [(loc ++ [name], e)]).map Prod.fst = _
    rw [List.map_append, locations, List.filter_map]
    rfl
  constructor
  · rw [hlocations]
    refine List.nodup_append.mpr ⟨h.nodup.filter _, List.nodup_singleton _, ?_⟩
    intro l hl l' hl' heq
    have hne := (List.mem_filter.mp hl).2
    rw [heq, List.mem_singleton.mp hl'] at hne
    simp at hne
  · rw [hlocations, List.mem_append, List.mem_singleton]
    rintro (hold | hnew)
    · exact h.rooted (List.mem_of_mem_filter hold)
    · simp at hnew
  · intro l name' hsome
    by_cases hhere : l ++ [name'] = loc ++ [name]
    · obtain ⟨rfl, -⟩ := List.append_inj' hhere rfl
      rw [entryAt?_put_other t _ (by simp)]
      exact hparent
    · rw [entryAt?_put_other t _ hhere] at hsome
      by_cases hl : l = loc ++ [name]
      · -- nothing stands below a location that is free
        rw [hl, h.entryAt?_eq_none hfree (List.prefix_append _ _)] at hsome
        cases hsome
      · rw [entryAt?_put_other t _ hl]
        exact h.parent l name' hsome
  · intro l hl name' hname'
    rw [hlocations, List.mem_append, List.mem_singleton] at hl
    rcases hl with hold | rfl
    · exact h.named l (List.mem_of_mem_filter hold) name' hname'
    · rcases List.mem_append.mp hname' with habove | hnew
      · exact h.isFileName (by rw [hparent]; rfl) habove
      · exact List.mem_singleton.mp hnew ▸ hname

theorem WellFormed.removeBelow (h : t.WellFormed) (loc : Location) :
    (t.removeBelow loc).WellFormed := by
  have hlocations : (t.removeBelow loc).locations =
      t.locations.filter fun l => !loc.isPrefixOf l := by
    show (t.entries.filter fun x => !loc.isPrefixOf x.1).map Prod.fst = _
    rw [locations, List.filter_map]
    rfl
  constructor
  · rw [hlocations]
    exact h.nodup.filter _
  · rw [hlocations]
    exact fun hroot => h.rooted (List.mem_of_mem_filter hroot)
  · intro l name hsome
    by_cases hbelow : loc <+: l ++ [name]
    · rw [entryAt?_removeBelow t (by simp) hbelow] at hsome
      cases hsome
    · rw [entryAt?_removeBelow_other t hbelow] at hsome
      have habove : ¬ loc <+: l := fun h => hbelow (h.trans (List.prefix_append _ _))
      rw [entryAt?_removeBelow_other t habove]
      exact h.parent l name hsome
  · intro l hl
    rw [hlocations] at hl
    exact h.named l (List.mem_of_mem_filter hl)

end RepoAudit.FileTree
