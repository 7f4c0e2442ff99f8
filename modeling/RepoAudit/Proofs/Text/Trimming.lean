import Mathlib.Data.List.DropRight
import Mathlib.Data.List.TakeWhile
import RepoAudit.Text.Blank

/-!
# Texts between blanks

Stripping takes the blanks around a text and nothing else.

* `exists_append_trimStart`, `exists_trimEnd_append` — what is taken away is blank; `trim_infix` — what
  is left is a part of the text;
* `IsBare` — a text that neither begins nor ends with a blank;
* `trim_append_append` — **a bare text comes back from between any blanks**;
* `trim_eq_self`, `trimEnd_eq_self` — a text without blanks at its ends is left alone.
-/

namespace RepoAudit.Text

variable {cs before after : List Char}

/-- A text is what trimming leaves of its beginning, and blanks. -/
theorem exists_trimEnd_append (s : List Char) :
    ∃ blanks, s = trimEnd s ++ blanks ∧ ∀ c ∈ blanks, isBlank c = true :=
  ⟨s.rtakeWhile isBlank, List.rdropWhile_append_rtakeWhile.symm,
    fun _ hc => List.mem_rtakeWhile_imp hc⟩

theorem exists_append_trimStart (s : List Char) :
    ∃ blanks, s = blanks ++ trimStart s ∧ ∀ c ∈ blanks, isBlank c = true :=
  ⟨s.takeWhile isBlank, List.takeWhile_append_dropWhile.symm, fun _ hc => List.mem_takeWhile_imp hc⟩

/-- What stripping leaves is a part of the text. -/
theorem trim_infix (s : List Char) : trim s <:+: s := by
  obtain ⟨before, hbefore, -⟩ := exists_append_trimStart s
  obtain ⟨after, hafter, -⟩ := exists_trimEnd_append (trimStart s)
  refine ⟨before, after, ?_⟩
  rw [trim, List.append_assoc, ← hafter, ← hbefore]

/-- A text that neither begins nor ends with a blank. -/
def IsBare (cs : List Char) : Prop :=
  (∀ c ∈ cs.head?, isBlank c = false) ∧ ∀ c ∈ cs.getLast?, isBlank c = false

instance (cs : List Char) : Decidable (IsBare cs) :=
  decidable_of_iff
    ((cs.head?.all (fun c => !isBlank c) && cs.getLast?.all fun c => !isBlank c) = true)
    (by simp [IsBare, Option.all_eq_true])

theorem trimStart_append (hbefore : ∀ c ∈ before, isBlank c = true)
    (hhead : ∀ c ∈ cs.head?, isBlank c = false) : trimStart (before ++ cs) = cs := by
  rw [trimStart, List.dropWhile_append_of_pos hbefore]
  cases cs with
  | nil => rfl
  | cons c cs => exact List.dropWhile_cons_of_neg (by simp [hhead c rfl])

theorem trimEnd_append (hafter : ∀ c ∈ after, isBlank c = true)
    (hlast : ∀ c ∈ cs.getLast?, isBlank c = false) : trimEnd (cs ++ after) = cs := by
  have hreverse : trimStart (after.reverse ++ cs.reverse) = cs.reverse :=
    trimStart_append (by simpa using hafter) (by simpa using hlast)
  rw [trimEnd, List.reverse_append]
  exact (congrArg List.reverse hreverse).trans (List.reverse_reverse cs)

theorem trimEnd_eq_self (hlast : ∀ c ∈ cs.getLast?, isBlank c = false) : trimEnd cs = cs := by
  have hnothing : ∀ c ∈ ([] : List Char), isBlank c = true := by simp
  simpa using trimEnd_append hnothing hlast

/-- A text that has blanks before it and after it, and none at its own ends, comes back. -/
theorem trim_append_append (hbefore : ∀ c ∈ before, isBlank c = true)
    (hafter : ∀ c ∈ after, isBlank c = true) (hcs : IsBare cs) :
    trim (before ++ cs ++ after) = cs := by
  cases cs with
  | nil =>
    -- nothing but blanks, all of which go at the start
    have hall : ∀ c ∈ before ++ after, isBlank c = true := by
      intro c hc
      rcases List.mem_append.mp hc with h | h
      · exact hbefore c h
      · exact hafter c h
    rw [List.append_nil, trim, trimStart, List.dropWhile_eq_nil_iff.mpr hall, trimEnd_nil]
  | cons c cs =>
    rw [trim, List.append_assoc, trimStart_append hbefore (by simpa using hcs.1),
      trimEnd_append hafter hcs.2]

/-- A text that neither begins nor ends with a blank is left alone by stripping. -/
theorem trim_eq_self (hcs : IsBare cs) : trim cs = cs := by
  have hnothing : ∀ c ∈ ([] : List Char), isBlank c = true := by simp
  simpa using trim_append_append hnothing hnothing hcs

end RepoAudit.Text
