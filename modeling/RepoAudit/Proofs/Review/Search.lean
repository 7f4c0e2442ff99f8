import Mathlib.Data.List.Induction
import RepoAudit.Proofs.Grouping
import RepoAudit.Review.Merge

/-!
# Advice by tables and by search

The advice of an answer is entered into four tables in one pass, and a finding looks into them one
after the other. A search through the answer from its beginning finds the same.

* `search?` — the search: by path and line, by place and line, by file name and line, and by place
  alone, where advice without a line comes first;
* `Table.lookup_setDefault`, `Table.lookup_preferWhole` — what entering advice does to a table;
* `lookup_ofList` — in the first three tables stands, for each key, the first useful advice with it;
* `wholeFirst`, `byFile_ofList` — in the last one stands, for each place, the first useful advice
  without a line, or the first at all;
* `attach_eq_search` — **attaching advice is that search for each reviewed finding, and it counts the
  findings for which the search finds something**.
-/

namespace RepoAudit.Review

variable {κ : Type} [DecidableEq κ] {repo : String} {advice : List Advice}

/-! ### The search -/

/-- The advice of an answer that has something to say. -/
def useful (advice : List Advice) : List Advice :=
  advice.filter fun a => a.remediation ≠ "" ∨ a.codeExample ≠ ""

/-- Advice for the line of a finding; line 0 and no line are the same. -/
abbrev OnLine (f : Finding) (a : Advice) : Prop := a.line.getD 0 = f.line.getD 0

/-- Advice for the file of a finding: both paths lead to one place from the repository. -/
abbrev InPlace (repo : String) (f : Finding) (a : Advice) : Prop :=
  Path.fromDirectory repo a.filePath = Path.fromDirectory repo f.filePath

/-- Advice for a file of the same name as that of a finding. -/
abbrev OfName (f : Finding) (a : Advice) : Prop :=
  Path.baseName a.filePath = Path.baseName f.filePath

/-- The advice that a search through an answer finds for a finding: the first for its path and line;
else the first in its place, for its line; else the first of its file name, for its line; else the
first in its place without a line, and else the first in its place. -/
def search? (repo : String) (advice : List Advice) (f : Finding) : Option Advice :=
  ((useful advice).find? fun a => a.filePath = f.filePath ∧ OnLine f a).or <|
  ((useful advice).find? fun a => InPlace repo f a ∧ OnLine f a).or <|
  ((useful advice).find? fun a => OfName f a ∧ OnLine f a).or <|
  ((useful advice).find? fun a => InPlace repo f a ∧ a.line.getD 0 = 0).or <|
  (useful advice).find? fun a => InPlace repo f a

/-! ### Entering advice into a table -/

/-- An entry that is set stays, and a new one is found under its key only. -/
theorem Table.lookup_setDefault (t : Table κ) (k k' : κ) (a : Advice) :
    (t.setDefault k a).lookup k' = (t.lookup k').or (if k = k' then some a else none) := by
  rw [setDefault]
  split
  · next hset =>
    by_cases hk : k = k'
    · subst hk
      rw [Option.or_of_isSome hset]
    · rw [if_neg hk, Option.or_none]
  · rw [List.lookup_append, lookup_cons_eq, List.lookup_nil]

/-- The entry of a key is replaced, and no other. -/
theorem Table.lookup_replaced (t : Table κ) (k k' : κ) (a : Advice) :
    List.lookup k' (t.map fun (k₀, x) => if k₀ = k then (k₀, a) else (k₀, x)) =
      if k = k' then (t.lookup k').map fun _ => a else t.lookup k' := by
  induction t with
  | nil => simp
  | cons entry t ih =>
    obtain ⟨k₀, x⟩ := entry
    rw [List.map_cons, lookup_cons_eq]
    by_cases hentry : k₀ = k
    · subst hentry
      rw [if_pos rfl, lookup_cons_eq, ih]
      by_cases hk : k₀ = k' <;> simp [hk]
    · rw [if_neg hentry, lookup_cons_eq, ih]
      by_cases hk : k₀ = k'
      · subst hk
        simp [Ne.symm hentry]
      · simp [hk]

/-- Advice without a line takes the place of advice with one, and any advice an empty place. -/
theorem Table.lookup_preferWhole (t : Table String) (k k' : String) (a : Advice) :
    (t.preferWhole k a).lookup k' =
      if k = k' then
        match t.lookup k' with
        | none => some a
        | some b => if a.lineOrZero = 0 ∧ b.lineOrZero ≠ 0 then some a else some b
      else t.lookup k' := by
  by_cases hk : k = k'
  · subst hk
    rw [preferWhole, if_pos rfl]
    cases hold : t.lookup k with
    | none => rw [List.lookup_append, hold, lookup_cons_eq, if_pos rfl, Option.none_or]
    | some b =>
      by_cases hprefer : a.lineOrZero = 0 ∧ b.lineOrZero ≠ 0
      · simp only [if_pos hprefer]
        rw [lookup_replaced, if_pos rfl, hold, Option.map_some]
      · simp only [if_neg hprefer]
        exact hold
  · rw [preferWhole, if_neg hk]
    split
    · rw [List.lookup_append, lookup_cons_eq, if_neg hk, List.lookup_nil, Option.or_none]
    · split
      · rw [lookup_replaced, if_neg hk]
      · rfl

/-! ### The tables of an answer -/

theorem isUseful_iff {a : Advice} :
    a.isUseful = true ↔ a.remediation ≠ "" ∨ a.codeExample ≠ "" := by
  rw [Advice.isUseful, Bool.or_eq_true, bne_iff_ne, bne_iff_ne]

/-- What is found fits. -/
theorem fits_of_find? {fits : Advice → Prop} [DecidablePred fits] {a : Advice}
    (h : advice.find? (fun b => fits b) = some a) : fits a := by
  have hfits := List.find?_some h
  rwa [decide_eq_true_eq] at hfits

/-- Where nothing is found, nothing fits. -/
theorem find?_eq_none_iff_forall {fits : Advice → Prop} [DecidablePred fits] :
    advice.find? (fun b => fits b) = none ↔ ∀ b ∈ advice, ¬ fits b := by
  simp only [List.find?_eq_none, decide_eq_true_eq]

theorem useful_append (advice : List Advice) (a : Advice) :
    useful (advice ++ [a]) = useful advice ++ if a.isUseful then [a] else [] := by
  rw [useful, List.filter_append, useful]
  by_cases h : a.isUseful
  · rw [if_pos h, List.filter_cons_of_pos (by simpa using isUseful_iff.mp h), List.filter_nil]
  · rw [if_neg h, List.filter_cons_of_neg (by simpa [isUseful_iff] using h), List.filter_nil]

theorem ofList_append (repo : String) (advice : List Advice) (a : Advice) :
    Tables.ofList repo (advice ++ [a]) = (Tables.ofList repo advice).add repo a := by
  rw [Tables.ofList, List.foldl_append]
  rfl

/-- Advice with something to say goes into all tables, and other advice into none. -/
theorem Tables.add_eq (repo : String) (t : Tables) (a : Advice) :
    t.add repo a =
      if a.isUseful then
        { exact := t.exact.setDefault (a.filePath, a.lineOrZero) a
          byPlace := t.byPlace.setDefault (Path.fromDirectory repo a.filePath, a.lineOrZero) a
          byName := t.byName.setDefault (Path.baseName a.filePath, a.lineOrZero) a
          byFile := t.byFile.preferWhole (Path.fromDirectory repo a.filePath) a }
      else t := by
  rw [Tables.add]
  cases a.isUseful <;> rfl

/-- A table whose entries stay has, under each key, the first useful advice with that key. -/
theorem lookup_ofList [inst : BEq κ] [LawfulBEq κ] (repo : String) (table : Tables → Table κ)
    (key : Advice → κ) (hempty : table {} = [])
    (hadd : ∀ t a, a.isUseful = true →
      table (Tables.add repo t a) = (table t).setDefault (key a) a)
    (advice : List Advice) (k : κ) :
    (table (Tables.ofList repo advice)).lookup k = (useful advice).find? fun a => key a = k := by
  -- there is one way to compare keys
  obtain rfl : inst = instBEqOfDecidableEq := lawful_beq_subsingleton _ _
  induction advice using List.reverseRecOn with
  | nil => exact congrArg (List.lookup k) hempty
  | append_singleton advice a ih =>
    rw [ofList_append, useful_append]
    by_cases huseful : a.isUseful
    · rw [hadd _ a huseful, Table.lookup_setDefault, ih, if_pos huseful, List.find?_append,
        List.find?_singleton]
      simp only [decide_eq_true_eq]
    · rw [Tables.add_eq, if_neg huseful, if_neg huseful, List.append_nil, ih]

/-- What is found among the advice for a place, where advice without a line comes first. -/
def wholeFirst (repo : String) (advice : List Advice) (place : String) : Option Advice :=
  (advice.find? fun a => Path.fromDirectory repo a.filePath = place ∧ a.lineOrZero = 0).or
    (advice.find? fun a => Path.fromDirectory repo a.filePath = place)

/-- What is found has a line only when all advice for the place has one. -/
theorem wholeFirst_append (repo : String) (advice : List Advice) (a : Advice) (place : String) :
    wholeFirst repo (advice ++ [a]) place =
      if Path.fromDirectory repo a.filePath = place then
        match wholeFirst repo advice place with
        | none => some a
        | some b => if a.lineOrZero = 0 ∧ b.lineOrZero ≠ 0 then some a else some b
      else wholeFirst repo advice place := by
  rw [wholeFirst, wholeFirst, List.find?_append, List.find?_append, List.find?_singleton,
    List.find?_singleton]
  by_cases hplace : Path.fromDirectory repo a.filePath = place
  · cases hwhole : advice.find? fun b =>
        Path.fromDirectory repo b.filePath = place ∧ b.lineOrZero = 0 with
    | some w =>
      have hline := (fits_of_find? hwhole).2
      simp [hplace, hline]
    | none =>
      cases hany : advice.find? fun b => Path.fromDirectory repo b.filePath = place with
      | none => by_cases hline : a.lineOrZero = 0 <;> simp [hplace, hline]
      | some b =>
        -- whatever was found has a line, or it would have been found without one
        have hb : b.lineOrZero ≠ 0 := fun hb =>
          find?_eq_none_iff_forall.mp hwhole b (List.mem_of_find?_eq_some hany)
            ⟨fits_of_find? hany, hb⟩
        by_cases hline : a.lineOrZero = 0 <;> simp [hplace, hline, hb]
  · simp [hplace]

/-- The table of places has, for each place, the first useful advice without a line, or else the first
at all. -/
theorem byFile_ofList (repo : String) (advice : List Advice) (place : String) :
    (Tables.ofList repo advice).byFile.lookup place =
      wholeFirst repo (useful advice) place := by
  induction advice using List.reverseRecOn with
  | nil => rfl
  | append_singleton advice a ih =>
    rw [ofList_append, Tables.add_eq, useful_append]
    by_cases huseful : a.isUseful
    · rw [if_pos huseful, if_pos huseful, wholeFirst_append, ← ih]
      exact Table.lookup_preferWhole _ _ _ _
    · rw [if_neg huseful, if_neg huseful, List.append_nil, ih]

/-- Looking into the tables one after the other is the search. -/
theorem adviceFor?_ofList (repo : String) (advice : List Advice) (f : Finding) :
    adviceFor? repo (Tables.ofList repo advice) f = search? repo advice f := by
  have hexact := lookup_ofList repo Tables.exact (fun a => (a.filePath, a.lineOrZero)) rfl
    (fun t a h => by rw [Tables.add_eq, if_pos h]) advice
  have hplace := lookup_ofList repo Tables.byPlace
    (fun a => (Path.fromDirectory repo a.filePath, a.lineOrZero)) rfl
    (fun t a h => by rw [Tables.add_eq, if_pos h]) advice
  have hname := lookup_ofList repo Tables.byName (fun a => (Path.baseName a.filePath, a.lineOrZero)) rfl
    (fun t a h => by rw [Tables.add_eq, if_pos h]) advice
  rw [adviceFor?, hexact, hplace, hname, byFile_ofList, wholeFirst, search?]
  simp only [Prod.mk.injEq, Option.or_assoc]
  rfl

/-! ### The main statement -/

/-- The advice that a finding gets: a reviewed one gets what the tables have for it. -/
def given? (repo : String) (reviewed : List Finding) (advice : List Advice) (f : Finding) :
    Option Advice :=
  if f.id ∈ reviewed.map Finding.id then adviceFor? repo (Tables.ofList repo advice) f else none

/-- Attaching advice gives each finding what it gets, and counts those that get something. -/
theorem attach_eq_given (repo : String) (findings reviewed : List Finding) (advice : List Advice) :
    attach repo findings reviewed advice =
      (findings.map fun f => (given? repo reviewed advice f).elim f (advised f),
        findings.countP fun f => (given? repo reviewed advice f).isSome) := by
  have hone : ∀ f, attachOne repo (reviewed.map Finding.id) (Tables.ofList repo advice) f =
      ((given? repo reviewed advice f).elim f (advised f),
        (given? repo reviewed advice f).isSome) := by
    intro f
    rw [attachOne, given?]
    split
    · split <;> next h => simp [h]
    · rfl
  rw [attach, List.map_map, List.filter_map, List.length_map, ← List.countP_eq_length_filter]
  simp only [Function.comp_def, hone]

/-- **Attaching advice is a search for each reviewed finding.** Whatever the repository, the findings,
the reviewed ones and the answer: a finding with the identifier of a reviewed one gets the remediation
and the example of the advice that the search finds for it, an empty text being none; every other
finding, and one for which the search finds nothing, is as it was; and the count is that of the
reviewed findings for which something is found. -/
theorem attach_eq_search (repo : String) (findings reviewed : List Finding) (advice : List Advice) :
    attach repo findings reviewed advice =
      (findings.map fun f =>
        match (if f.id ∈ reviewed.map Finding.id then search? repo advice f else none) with
        | some a => { f with
            remediation := if a.remediation = "" then none else some a.remediation
            codeExample := if a.codeExample = "" then none else some a.codeExample }
        | none => f,
      findings.countP fun f =>
        f.id ∈ reviewed.map Finding.id ∧ (search? repo advice f).isSome) := by
  rw [attach_eq_given]
  simp only [given?, adviceFor?_ofList]
  refine Prod.ext (List.map_congr_left fun f _ => ?_) (List.countP_congr fun f _ => ?_)
  · by_cases hid : f.id ∈ reviewed.map Finding.id
    · simp only [if_pos hid]
      cases search? repo advice f <;> rfl
    · simp only [if_neg hid]
      rfl
  · by_cases hid : f.id ∈ reviewed.map Finding.id <;> simp [hid]

/-- Advice for line 0 is advice without a line, however its path is spelled. -/
example : search? "/repo"
    [⟨"/repo/app.py", some 7, "a", ""⟩, ⟨"./app.py", some 0, "b", ""⟩, ⟨"app.py", none, "c", ""⟩]
    { id := "f", severity := .high, tool := "t", filePath := "app.py", description := "d",
      line := some 3 } = some ⟨"./app.py", some 0, "b", ""⟩ := by decide +kernel

end RepoAudit.Review
