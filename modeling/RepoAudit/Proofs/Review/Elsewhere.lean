import RepoAudit.Proofs.Review.Search

/-!
# Advice for another file

Of the ways in which advice is found for a finding, all but one lead to the place that the advice is
for. The one by file name and line can lead to advice for another file of that name, also when that
file has a finding of its own.

* `inPlace_of_same_path` — one path leads to one place;
* `search_elsewhere_iff` — when the search finds advice for another place;
* `given_iff` — what a finding gets;
* `elsewhere_only_by_name` — **advice is attached to findings in the file it is for, and besides only by
  file name and line: to a reviewed finding in another file that nothing useful is for on its line, when
  it is the first useful advice with the name and the line**;
* `advice_goes_elsewhere` — of two files of one name, one gets the advice that the other got.
-/

namespace RepoAudit.Review

variable {repo : String} {reviewed : List Finding} {advice : List Advice} {f : Finding} {a : Advice}

theorem inPlace_of_same_path (repo : String) (h : a.filePath = f.filePath) : InPlace repo f a :=
  congrArg (Path.fromDirectory repo) h

/-- The search finds advice for another place exactly by file name and line, when there is none for the
place and the line. -/
theorem search_elsewhere_iff :
    search? repo advice f = some a ∧ ¬ InPlace repo f a ↔
      ((useful advice).find? fun b => OfName f b ∧ OnLine f b) = some a ∧ ¬ InPlace repo f a ∧
        ∀ b ∈ useful advice, OnLine f b → ¬ InPlace repo f b := by
  constructor
  · rintro ⟨hfound, helsewhere⟩
    simp only [search?, Option.or_eq_some_iff] at hfound
    rcases hfound with hexact | ⟨-, hplace | ⟨hnone, hname | ⟨-, hwhole | ⟨-, hany⟩⟩⟩⟩
    · exact absurd (inPlace_of_same_path repo (fits_of_find? hexact).1) helsewhere
    · exact absurd (fits_of_find? hplace).1 helsewhere
    · exact ⟨hname, helsewhere, fun b hb hline hplace =>
        find?_eq_none_iff_forall.mp hnone b hb ⟨hplace, hline⟩⟩
    · exact absurd (fits_of_find? hwhole).1 helsewhere
    · exact absurd (fits_of_find? hany) helsewhere
  · rintro ⟨hname, helsewhere, hnone⟩
    have hplace : ((useful advice).find? fun b => InPlace repo f b ∧ OnLine f b) = none :=
      find?_eq_none_iff_forall.mpr fun b hb hfits => hnone b hb hfits.2 hfits.1
    have hexact : ((useful advice).find? fun b => b.filePath = f.filePath ∧ OnLine f b) = none :=
      find?_eq_none_iff_forall.mpr fun b hb hfits =>
        hnone b hb hfits.2 (inPlace_of_same_path repo hfits.1)
    refine ⟨?_, helsewhere⟩
    rw [search?, hexact, Option.none_or, hplace, Option.none_or, hname, Option.some_or]

/-- A reviewed finding gets what the search finds, and no other gets anything. -/
theorem given_iff :
    given? repo reviewed advice f = some a ↔
      f.id ∈ reviewed.map Finding.id ∧ search? repo advice f = some a := by
  rw [given?, adviceFor?_ofList]
  split
  · next hid => exact (and_iff_right hid).symm
  · next hid => exact iff_of_false (Option.some_ne_none a ∘ Eq.symm) fun h => hid h.1

/-- **Advice goes to another file only by file name and line.** Each finding comes back with the advice
that it gets. Advice that a finding gets is for the file of the finding, or it is for another one, and
this happens exactly when the finding is a reviewed one, the advice is the first useful one with the
file name and the line of the finding, and no useful advice for the file of the finding has that
line. -/
theorem elsewhere_only_by_name (repo : String) (findings reviewed : List Finding)
    (advice : List Advice) :
    (attach repo findings reviewed advice).1 =
        findings.map (fun f => (given? repo reviewed advice f).elim f (advised f)) ∧
      ∀ f a, given? repo reviewed advice f = some a ∧ ¬ InPlace repo f a ↔
        f.id ∈ reviewed.map Finding.id ∧
          ((useful advice).find? fun b => OfName f b ∧ OnLine f b) = some a ∧ ¬ InPlace repo f a ∧
            ∀ b ∈ useful advice, OnLine f b → ¬ InPlace repo f b := by
  refine ⟨by rw [attach_eq_given], fun f a => ?_⟩
  rw [given_iff, and_assoc, search_elsewhere_iff]

/-- A severe finding on line 10 of a file. -/
def findingOnTen (id path : String) : Finding :=
  { id := id, severity := .high, tool := "t", filePath := path, description := "d", line := some 10 }

/-- The advice for the manifest of one package is attached to that of another as well. -/
theorem advice_goes_elsewhere :
    let f := findingOnTen "f0" "a/package.json"
    let g := findingOnTen "f1" "b/package.json"
    let a : Advice := ⟨"a/package.json", some 10, "upgrade", ""⟩
    attach "/repo" [f, g] [f, g] [a] = ([advised f a, advised g a], 2) ∧
      InPlace "/repo" f a ∧ ¬ InPlace "/repo" g a ∧
      ¬ ∀ (repo : String) (findings reviewed : List Finding) (advice : List Advice),
          ∀ f ∈ findings, ∀ a, given? repo reviewed advice f = some a →
            (∃ r ∈ reviewed, InPlace repo r a) → InPlace repo f a := by
  intro f g a
  have hattach : attach "/repo" [f, g] [f, g] [a] = ([advised f a, advised g a], 2) := by
    decide +kernel
  have hhere : InPlace "/repo" f a := rfl
  have hthere : ¬ InPlace "/repo" g a := by decide +kernel
  refine ⟨hattach, hhere, hthere, fun hall => hthere ?_⟩
  exact hall "/repo" [f, g] [f, g] [a] g (by simp) a (by decide +kernel) ⟨f, by simp, hhere⟩

end RepoAudit.Review
