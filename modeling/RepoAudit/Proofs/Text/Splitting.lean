import RepoAudit.Text.Search

/-!
# Splitting and joining

Splitting a text at a separator and joining pieces with it undo each other, as long as no piece
holds the separator.

* `splitOn_eq`, `joinWith_eq` — the two are those of lists in general;
* `splitOn_append_cons`, `splitOn_joinWith`, `joinWith_append` — the pieces of a text put together;
* `not_mem_of_mem_splitOn`, `mem_of_mem_splitOn`, `mem_joinWith` — the characters of pieces;
* `mem_splitOn_iff` — where in a text a piece can stand: alone, first, last or between two separators.
-/

namespace RepoAudit.Text

theorem splitOn_eq (sep : Char) (s : List Char) : splitOn sep s = s.splitOn sep := by
  rw [List.splitOn_eq_splitOnP]
  induction s with
  | nil => rfl
  | cons c r ih =>
    rw [splitOn, List.splitOnP_cons_eq_if_modifyHead, ih]
    by_cases hc : c = sep
    · rw [if_pos hc, if_pos (by simpa using hc)]
    · rw [if_neg hc, if_neg (by simpa using hc)]
      cases hr : List.splitOnP (fun x => x == sep) r with
      | nil => exact absurd hr (List.splitOnP_ne_nil _ r)
      | cons piece rest => rfl

theorem joinWith_eq (sep : Char) (pieces : List (List Char)) :
    joinWith sep pieces = [sep].intercalate pieces := by
  induction pieces with
  | nil => rfl
  | cons piece rest ih =>
    cases rest with
    | nil => simp [joinWith, List.intercalate]
    | cons next rest =>
      rw [List.intercalate_cons_cons, ← ih]
      simp [joinWith]

/-- A text is split at each separator in it. -/
theorem splitOn_append_cons (sep : Char) (a b : List Char) :
    splitOn sep (a ++ sep :: b) = splitOn sep a ++ splitOn sep b := by
  simp only [splitOn_eq, List.splitOn_eq_splitOnP]
  exact List.splitOnP_append_cons a b (by simp)

/-- Pieces without separators come back. -/
theorem splitOn_joinWith {sep : Char} {pieces : List (List Char)} (hne : pieces ≠ [])
    (h : ∀ piece ∈ pieces, sep ∉ piece) : splitOn sep (joinWith sep pieces) = pieces := by
  rw [splitOn_eq, joinWith_eq]
  exact List.splitOn_intercalate sep h hne

theorem not_mem_of_mem_splitOn {sep : Char} {s piece : List Char} (h : piece ∈ splitOn sep s) :
    sep ∉ piece := by
  induction s generalizing piece with
  | nil =>
    rw [splitOn, List.mem_singleton] at h
    exact h ▸ List.not_mem_nil
  | cons c r ih =>
    rw [splitOn] at h
    split at h
    · rcases List.mem_cons.mp h with rfl | hrest
      · exact List.not_mem_nil
      · exact ih hrest
    · next hc =>
      split at h
      · rw [List.mem_singleton] at h
        simpa [h] using fun heq => hc heq.symm
      · next first rest hr =>
        rcases List.mem_cons.mp h with rfl | hrest
        · have hmem : first ∈ splitOn sep r := hr ▸ List.mem_cons_self
          have hfirst := ih hmem
          simpa [hfirst] using fun heq => hc heq.symm
        · exact ih (by rw [hr]; exact List.mem_cons_of_mem _ hrest)

/-- A character of joined pieces is in a piece or between two. -/
theorem mem_joinWith {sep c : Char} {pieces : List (List Char)} (h : c ∈ joinWith sep pieces) :
    c = sep ∨ ∃ piece ∈ pieces, c ∈ piece := by
  induction pieces with
  | nil => exact absurd h List.not_mem_nil
  | cons piece rest ih =>
    cases rest with
    | nil => exact .inr ⟨piece, List.mem_cons_self, h⟩
    | cons next rest =>
      rw [joinWith, List.mem_append, List.mem_cons] at h
      · rcases h with hpiece | rfl | hrest
        · exact .inr ⟨piece, List.mem_cons_self, hpiece⟩
        · exact .inl rfl
        · rcases ih hrest with hsep | ⟨piece', hmem, hc⟩
          · exact .inl hsep
          · exact .inr ⟨piece', List.mem_cons_of_mem _ hmem, hc⟩
      · simp

theorem mem_joinWith_of_mem {sep c : Char} {piece : List Char} {pieces : List (List Char)}
    (hpiece : piece ∈ pieces) (hc : c ∈ piece) : c ∈ joinWith sep pieces := by
  induction pieces with
  | nil => exact absurd hpiece List.not_mem_nil
  | cons first rest ih =>
    cases rest with
    | nil =>
      rw [List.mem_singleton] at hpiece
      exact hpiece ▸ hc
    | cons next rest =>
      rw [joinWith, List.mem_append, List.mem_cons]
      · rcases List.mem_cons.mp hpiece with rfl | hrest
        · exact .inl hc
        · exact .inr (.inr (ih hrest))
      · simp

/-- The characters of a piece are in the text. -/
theorem mem_of_mem_splitOn {sep c : Char} {s piece : List Char} (h : piece ∈ splitOn sep s)
    (hc : c ∈ piece) : c ∈ s := by
  rw [← joinWith_splitOn sep s]
  exact mem_joinWith_of_mem h hc

/-! ### Where a piece stands -/

theorem joinWith_cons {sep : Char} {pieces : List (List Char)} (h : pieces ≠ [])
    (piece : List Char) : joinWith sep (piece :: pieces) = piece ++ sep :: joinWith sep pieces := by
  obtain ⟨next, rest, rfl⟩ := List.exists_cons_of_ne_nil h
  rw [joinWith]
  simp

theorem joinWith_append {sep : Char} {a b : List (List Char)} (ha : a ≠ []) (hb : b ≠ []) :
    joinWith sep (a ++ b) = joinWith sep a ++ sep :: joinWith sep b := by
  induction a with
  | nil => exact absurd rfl ha
  | cons piece rest ih =>
    rw [List.cons_append, joinWith_cons (by simp [hb])]
    by_cases hrest : rest = []
    · rw [hrest]
      rfl
    · rw [ih hrest, joinWith_cons hrest, List.append_assoc, List.cons_append]

/-- A text without separators is a piece of another one if it is all of it, or stands before its first
separator, behind its last one, or between two. -/
theorem mem_splitOn_iff {sep : Char} {s piece : List Char} (h : sep ∉ piece) :
    piece ∈ splitOn sep s ↔
      s = piece ∨ piece ++ [sep] <+: s ∨ sep :: piece <:+ s ∨ sep :: piece ++ [sep] <:+: s := by
  have hself : splitOn sep piece = [piece] := by
    have hone : ∀ x ∈ [piece], sep ∉ x := by simpa using h
    exact splitOn_joinWith (List.cons_ne_nil piece []) hone
  constructor
  · intro hmem
    obtain ⟨before, after, hsplit⟩ := List.append_of_mem hmem
    have hs := joinWith_splitOn sep s
    rw [hsplit] at hs
    by_cases hbefore : before = []
    · subst hbefore
      by_cases hafter : after = []
      · subst hafter
        exact .inl hs.symm
      · rw [List.nil_append, joinWith_cons hafter] at hs
        exact .inr (.inl ⟨joinWith sep after, by rw [← hs]; simp⟩)
    · rw [joinWith_append hbefore (List.cons_ne_nil piece after)] at hs
      by_cases hafter : after = []
      · subst hafter
        exact .inr (.inr (.inl ⟨joinWith sep before, hs⟩))
      · rw [joinWith_cons hafter] at hs
        exact .inr (.inr (.inr ⟨joinWith sep before, joinWith sep after, by rw [← hs]; simp⟩))
  · rintro (rfl | ⟨after, rfl⟩ | ⟨before, rfl⟩ | ⟨before, after, rfl⟩)
    · rw [hself]
      exact List.mem_singleton_self s
    · rw [List.append_assoc, List.singleton_append, splitOn_append_cons, hself]
      exact List.mem_append_left _ (List.mem_singleton_self piece)
    · rw [splitOn_append_cons, hself]
      exact List.mem_append_right _ (List.mem_singleton_self piece)
    · rw [List.append_assoc, List.cons_append, List.cons_append, List.append_assoc,
        List.singleton_append, splitOn_append_cons, splitOn_append_cons, hself]
      exact List.mem_append_right _ (List.mem_append_left _ (List.mem_singleton_self piece))

end RepoAudit.Text
