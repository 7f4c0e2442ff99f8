import RepoAudit.Files.Tree

/-!
# What a change to a file tree changes

A tree is seen through its entries only.

* `FileTree.entryAt?_put`, `FileTree.entryAt?_put_other` — an entry that is put is found, and every other
  location has the entry it had;
* `FileTree.entryAt?_removeBelow`, `FileTree.entryAt?_removeBelow_other` — what is removed is not found
  any more, and every location that is not at or below it has the entry it had.
-/

namespace RepoAudit

namespace Location

theorem isBelow_iff {root loc : Location} : isBelow root loc = true ↔ root <+: loc ∧ root ≠ loc := by
  rw [isBelow, Bool.and_eq_true, List.isPrefixOf_iff_prefix, bne_iff_ne]

theorem isBelow_eq_false {root loc : Location} (h : ¬ root <+: loc) : isBelow root loc = false :=
  Bool.eq_false_iff.mpr fun hbelow => h (isBelow_iff.mp hbelow).1

end Location

namespace FileTree

variable {t : FileTree} {loc l : Location} {e : Entry}

/-- Entries that are chosen by their location alone are found as before where they are kept. -/
theorem find?_filter (keep : Location → Bool) (loc : Location) (entries : List (Location × Entry)) :
    find? loc (entries.filter fun x => keep x.1) = if keep loc then find? loc entries else none := by
  induction entries with
  | nil => simp [find?]
  | cons first rest ih =>
    obtain ⟨l, e⟩ := first
    rw [List.filter_cons]
    show find? loc (if keep l then (l, e) :: rest.filter fun x => keep x.1
      else rest.filter fun x => keep x.1) = _
    by_cases heq : l = loc
    · subst heq
      by_cases hl : keep l <;> simp [hl, find?, ih]
    · by_cases hl : keep l <;> simp [hl, heq, find?, ih]

theorem find?_append (loc : Location) (first rest : List (Location × Entry)) :
    find? loc (first ++ rest) = (find? loc first).or (find? loc rest) := by
  induction first with
  | nil => rfl
  | cons x first ih =>
    obtain ⟨l, e⟩ := x
    rw [List.cons_append, find?, find?]
    by_cases heq : l = loc
    · rw [if_pos heq, if_pos heq]
      rfl
    · rw [if_neg heq, if_neg heq, ih]

theorem find?_put (t : FileTree) (loc : Location) (e : Entry) (l : Location) :
    find? l (t.put loc e).entries = if l = loc then some e else find? l t.entries := by
  show find? l ((t.entries.filter fun x => decide (x.1 ≠ loc)) ++ [(loc, e)]) = _
  rw [find?_append, find?_filter fun l => decide (l ≠ loc)]
  by_cases heq : l = loc
  · simp [heq, find?]
  · simp [heq, Ne.symm heq, find?]

theorem entryAt?_put (t : FileTree) (e : Entry) (hne : loc ≠ []) :
    FileTree.entryAt? (t.put loc e) loc = some e := by
  rw [entryAt?, if_neg hne, find?_put, if_pos rfl]

theorem entryAt?_put_other (t : FileTree) (e : Entry) (hne : l ≠ loc) :
    FileTree.entryAt? (t.put loc e) l = t.entryAt? l := by
  rw [entryAt?, entryAt?, find?_put, if_neg hne]

theorem find?_removeBelow (t : FileTree) (loc l : Location) :
    find? l (t.removeBelow loc).entries = if loc <+: l then none else find? l t.entries := by
  show find? l (t.entries.filter fun x => !loc.isPrefixOf x.1) = _
  rw [find?_filter fun l => !loc.isPrefixOf l]
  have hiff : loc.isPrefixOf l = true ↔ loc <+: l := List.isPrefixOf_iff_prefix
  by_cases hbelow : loc <+: l
  · simp [hbelow, hiff.mpr hbelow]
  · simp [hbelow, Bool.eq_false_iff.mpr (mt hiff.mp hbelow)]

/-- What is at a removed location or below it is gone. -/
theorem entryAt?_removeBelow (t : FileTree) (hne : l ≠ []) (hbelow : loc <+: l) :
    FileTree.entryAt? (t.removeBelow loc) l = none := by
  rw [entryAt?, if_neg hne, find?_removeBelow, if_pos hbelow]

/-- What is not at a removed location and not below it stays. -/
theorem entryAt?_removeBelow_other (t : FileTree) (hbelow : ¬ loc <+: l) :
    FileTree.entryAt? (t.removeBelow loc) l = t.entryAt? l := by
  rw [entryAt?, entryAt?, find?_removeBelow, if_neg hbelow]

end FileTree

end RepoAudit
