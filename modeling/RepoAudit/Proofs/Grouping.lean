import Mathlib.Data.List.Induction
import Mathlib.Data.List.Nodup
import RepoAudit.Aggregate

/-!
# Tables filled item by item

A table in which every item either joins the entry of its key or opens one at the end has the keys of
the items, each once, in order of first occurrence.

* `eraseDups_concat`, `filter_eraseDups` — the distinct items of a list, one item at a time and among
  some of them;
* `lookup_cons_eq`, `lookup_eq_some_of_mem` — what is found under a key;
* `keys_add`, `map_fst_foldl`, `keys_foldl` — the keys of such a table;
* `Finding.nodup_keys_groupBy`, `Finding.mem_keys_groupBy_iff` — the keys of groups;
* `Finding.groupBy_eq` — the groups of a list are its distinct keys, each with its items.
-/

namespace RepoAudit

/-! ### Distinct items -/

section

variable {κ : Type} [DecidableEq κ]

theorem eraseDups_concat (xs : List κ) (x : κ) :
    (xs ++ [x]).eraseDups = if x ∈ xs then xs.eraseDups else xs.eraseDups ++ [x] := by
  rw [List.eraseDups_append]
  split
  · next hold => simp [List.removeAll, hold]
  · next hnew => simp [List.removeAll, hnew, List.eraseDups_cons]

theorem nodup_eraseDups (xs : List κ) : xs.eraseDups.Nodup := by
  induction xs using List.reverseRecOn with
  | nil => exact List.nodup_nil
  | append_singleton xs x ih =>
    rw [eraseDups_concat]
    split
    · exact ih
    · next hnew =>
      refine List.nodup_append.mpr ⟨ih, List.nodup_singleton x, ?_⟩
      rintro k hk _ hx rfl
      rw [List.mem_singleton.mp hx, List.mem_eraseDups] at hk
      exact hnew hk

/-- The distinct items among some items of a list. -/
theorem filter_eraseDups (p : κ → Bool) (xs : List κ) :
    xs.eraseDups.filter p = (xs.filter p).eraseDups := by
  induction xs using List.reverseRecOn with
  | nil => rfl
  | append_singleton xs x ih =>
    rw [eraseDups_concat, List.filter_append]
    by_cases hp : p x
    · have hone : [x].filter p = [x] := by simp [hp]
      have hmem : x ∈ xs.filter p ↔ x ∈ xs := by simp [hp]
      rw [hone, eraseDups_concat]
      simp only [hmem]
      split
      · exact ih
      · rw [List.filter_append, hone, ih]
    · have hnone : [x].filter p = [] := by simp [hp]
      rw [hnone, List.append_nil]
      split
      · exact ih
      · rw [List.filter_append, hnone, List.append_nil, ih]

end

/-! ### Keys -/

theorem lookup_cons_eq {κ β : Type} [DecidableEq κ] (k k' : κ) (y : β) (table : List (κ × β)) :
    List.lookup k' ((k, y) :: table) = if k = k' then some y else table.lookup k' := by
  rw [List.lookup_cons]
  by_cases h : k = k'
  · simp [h]
  · rw [beq_false_of_ne (Ne.symm h), if_neg h]

/-- In a table with each key once, an entry is what is found under its key. -/
theorem lookup_eq_some_of_mem {κ β : Type} [DecidableEq κ] {k : κ} {y : β} {table : List (κ × β)}
    (hkeys : (table.map Prod.fst).Nodup) (h : (k, y) ∈ table) : table.lookup k = some y := by
  induction table with
  | nil => exact absurd h List.not_mem_nil
  | cons first rest ih =>
    obtain ⟨k', y'⟩ := first
    rw [List.map_cons, List.nodup_cons] at hkeys
    rw [lookup_cons_eq]
    rcases List.mem_cons.mp h with heq | hrest
    · obtain ⟨rfl, rfl⟩ := Prod.mk.inj heq
      rw [if_pos rfl]
    · have hne : k' ≠ k := by
        intro heq
        subst heq
        exact hkeys.1 (List.mem_map.mpr ⟨_, hrest, rfl⟩)
      rw [if_neg hne]
      exact ih hkeys.2 hrest

/-- An item joins the entry of its key, or opens one at the end. -/
theorem keys_add {κ β : Type} [DecidableEq κ] {k : κ} {add : List (κ × β) → List (κ × β)}
    (hnil : (add []).map Prod.fst = [k])
    (hcons : ∀ k' y rest, (add ((k', y) :: rest)).map Prod.fst =
      if k' = k then k' :: rest.map Prod.fst else k' :: (add rest).map Prod.fst)
    (table : List (κ × β)) :
    (add table).map Prod.fst =
      if k ∈ table.map Prod.fst then table.map Prod.fst else table.map Prod.fst ++ [k] := by
  induction table with
  | nil => exact hnil
  | cons first rest ih =>
    obtain ⟨k', y⟩ := first
    rw [hcons, ih, List.map_cons]
    by_cases hk : k' = k
    · subst hk
      simp
    · by_cases hold : k ∈ rest.map Prod.fst
      · rw [if_neg hk, if_pos hold, if_pos (List.mem_cons_of_mem _ hold)]
      · rw [if_neg hk, if_neg hold, if_neg (by simp [Ne.symm hk, hold]), List.cons_append]

/-- A table filled item by item has the keys of the items, in order of first occurrence. -/
theorem map_fst_foldl {ι κ β : Type} [DecidableEq κ] {key : ι → κ}
    {add : List (κ × β) → ι → List (κ × β)}
    (hadd : ∀ table x, (add table x).map Prod.fst =
      if key x ∈ table.map Prod.fst then table.map Prod.fst else table.map Prod.fst ++ [key x])
    (xs : List ι) : (xs.foldl add []).map Prod.fst = (xs.map key).eraseDups := by
  induction xs using List.reverseRecOn with
  | nil => rfl
  | append_singleton xs x ih =>
    rw [List.foldl_append, List.foldl_cons, List.foldl_nil, hadd, ih, List.map_append,
      List.map_singleton, eraseDups_concat]
    simp only [List.mem_eraseDups]

/-- A table filled item by item has the keys of the items, each once. -/
theorem keys_foldl {ι κ β : Type} [DecidableEq κ] {key : ι → κ}
    {add : List (κ × β) → ι → List (κ × β)}
    (hadd : ∀ table x, (add table x).map Prod.fst =
      if key x ∈ table.map Prod.fst then table.map Prod.fst else table.map Prod.fst ++ [key x])
    (xs : List ι) :
    ((xs.foldl add []).map Prod.fst).Nodup ∧
      ∀ k, k ∈ (xs.foldl add []).map Prod.fst ↔ ∃ x ∈ xs, key x = k := by
  rw [map_fst_foldl hadd]
  exact ⟨nodup_eraseDups _, fun k => by rw [List.mem_eraseDups, List.mem_map]⟩

namespace Finding

variable {α β : Type} [DecidableEq α]

theorem keys_addToGroup (k : α) (x : β) (groups : List (α × List β)) :
    (addToGroup k x groups).map Prod.fst =
      if k ∈ groups.map Prod.fst then groups.map Prod.fst else groups.map Prod.fst ++ [k] := by
  refine keys_add rfl (fun k' xs rest => ?_) groups
  rw [addToGroup]
  split <;> rfl

/-- Each key has one group. -/
theorem nodup_keys_groupBy (key : β → α) (xs : List β) : ((groupBy key xs).map Prod.fst).Nodup :=
  (keys_foldl (fun groups x => keys_addToGroup (key x) x groups) xs).1

/-- There are groups for the keys of the items. -/
theorem mem_keys_groupBy_iff {key : β → α} {xs : List β} {k : α} :
    k ∈ (groupBy key xs).map Prod.fst ↔ ∃ x ∈ xs, key x = k :=
  (keys_foldl (fun groups x => keys_addToGroup (key x) x groups) xs).2 k

/-! ### Groups -/

theorem lookup_addToGroup (k k' : α) (x : β) (groups : List (α × List β)) :
    (addToGroup k x groups).lookup k' =
      if k = k' then some ((groups.lookup k).getD [] ++ [x]) else groups.lookup k' := by
  induction groups with
  | nil =>
    rw [addToGroup, lookup_cons_eq]
    rfl
  | cons first rest ih =>
    obtain ⟨k₀, ys⟩ := first
    rw [addToGroup]
    by_cases h : k₀ = k
    · subst h
      rw [if_pos rfl, lookup_cons_eq, lookup_cons_eq, lookup_cons_eq, if_pos rfl]
      split <;> rfl
    · rw [if_neg h, lookup_cons_eq, lookup_cons_eq, lookup_cons_eq, if_neg h, ih]
      by_cases hk : k = k'
      · subst hk
        simp [h]
      · simp [hk]

theorem lookup_groupBy (key : β → α) (xs : List β) (k : α) :
    (groupBy key xs).lookup k = if k ∈ xs.map key then some (xs.filter (key · = k)) else none := by
  induction xs using List.reverseRecOn with
  | nil => rfl
  | append_singleton xs x ih =>
    rw [groupBy, List.foldl_append, List.foldl_cons, List.foldl_nil, ← groupBy, lookup_addToGroup,
      List.filter_append, List.map_append]
    by_cases hk : key x = k
    · -- a key that is new has no items so far
      have hold : ((groupBy key xs).lookup k).getD [] = xs.filter (key · = k) := by
        rw [ih]
        split
        · rfl
        · next hnew =>
          refine (List.filter_eq_nil_iff.mpr fun y hy hkey => hnew ?_).symm
          exact List.mem_map.mpr ⟨y, hy, of_decide_eq_true hkey⟩
      rw [hk, if_pos rfl, hold, if_pos (by simp [hk])]
      simp [hk]
    · rw [if_neg hk, ih]
      simp [hk, Ne.symm hk]

theorem map_fst_groupBy (key : β → α) (xs : List β) :
    (groupBy key xs).map Prod.fst = (xs.map key).eraseDups :=
  map_fst_foldl (fun groups x => keys_addToGroup (key x) x groups) xs

/-- The groups of a list are its distinct keys in order of first occurrence, each with the items that
have it. -/
theorem groupBy_eq (key : β → α) (xs : List β) :
    groupBy key xs = (xs.map key).eraseDups.map fun k => (k, xs.filter (key · = k)) := by
  have hgroup : ∀ g ∈ groupBy key xs, g = (g.1, xs.filter (key · = g.1)) := by
    rintro ⟨k, ys⟩ hg
    have hfound := lookup_eq_some_of_mem (nodup_keys_groupBy key xs) hg
    have hk : k ∈ xs.map key :=
      List.mem_eraseDups.mp (map_fst_groupBy key xs ▸ List.mem_map_of_mem (f := Prod.fst) hg)
    rw [lookup_groupBy, if_pos hk, Option.some.injEq] at hfound
    exact congrArg (Prod.mk k) hfound.symm
  rw [← map_fst_groupBy, List.map_map]
  exact (List.map_id _).symm.trans (List.map_congr_left hgroup)

end Finding

end RepoAudit
