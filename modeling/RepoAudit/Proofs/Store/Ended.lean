import RepoAudit.Proofs.Store.History

/-!
# What a job keeps once it has ended

A call that moves a job asks first whether the job has ended, and so does the one that writes its
findings. The call that sets its languages does not ask, so these can be replaced at any stage.

* `Store.Change.of_ended` — the one change that is made to the record of a job that has ended;
* `Store.afterCall_ended` — what is left of its record and its rows after one more call;
* `Store.ended_kept_iff` — **a job that has ended keeps its rows and all of its record but the
  languages; it keeps these as well exactly when no call gives it others**;
* `Store.ended_relabelled` — a failed job that is given languages.
-/

namespace RepoAudit.Store

variable {s : Store} {id : String} {r : JobRecord} {c : Call}

/-- A call gives a job other languages than these. -/
def Call.Relabels (id : String) (languages : List String) (c : Call) : Prop :=
  ∃ other, c = .setLanguages id other ∧ other ≠ languages

theorem Call.Relabels.job {languages : List String} (h : c.Relabels id languages) : c.job = id := by
  obtain ⟨other, rfl, -⟩ := h
  rfl

/-- A job that has ended moves nowhere, so only its languages can still change. -/
theorem Change.of_ended {r' : JobRecord} (hchange : Change c (some r) r')
    (hend : r.status.isTerminal) :
    ∃ languages, c = .setLanguages r.id languages ∧ r' = { r with languages := languages } := by
  have hstuck : ∀ target, ¬ r.status.canMoveTo target := by
    intro target hmove
    rw [JobStatus.not_isTerminal_of_canMoveTo hmove] at hend
    exact Bool.false_ne_true hend
  cases hchange with
  | transition _ target hmove => exact absurd hmove (hstuck target)
  | setLanguages _ languages => exact ⟨languages, rfl, rfl⟩
  | fail now _ error hmove => exact absurd hmove (hstuck .failed)
  | complete now _ findings stats hmove => exact absurd hmove (hstuck .completed)

/-- After one more call the record is the same but for the languages, which are the same unless the
call gives the job others; and so are the rows. -/
theorem afterCall_ended (hr : s.record? id = some r) (hend : r.status.isTerminal) (c : Call) :
    ∃ languages, (s.afterCall c).record? id = some { r with languages := languages } ∧
      (languages = r.languages ↔ ¬ c.Relabels id r.languages) ∧
      (s.afterCall c).rowsFor id = s.rowsFor id := by
  cases hans : s.answer c with
  | error e =>
    rw [afterCall_of_error hans]
    refine ⟨r.languages, hr, iff_of_true rfl ?_, rfl⟩
    rintro ⟨other, rfl, -⟩
    -- setting the languages of a stored job is never refused
    have hgranted : s.answer (.setLanguages id other) = .ok _ :=
      setLanguages_eq_ok_iff.mpr ⟨r, hr, rfl⟩
    rw [hans] at hgranted
    cases hgranted
  | ok s' =>
    rw [afterCall_of_ok hans]
    by_cases hid : id = c.job
    · subst hid
      obtain ⟨r', hr', hchange⟩ := change_of_answer hans
      rw [hr] at hchange
      obtain ⟨languages, hc, rfl⟩ := hchange.of_ended hend
      have hrows : s'.rows = s.rows := by
        rw [rows_answer hans, hc]
        exact List.append_nil _
      refine ⟨languages, hr', ?_, by rw [rowsFor, hrows, rowsFor]⟩
      constructor
      · rintro rfl ⟨other, hother, hne⟩
        rw [hc, Call.setLanguages.injEq] at hother
        exact hne hother.2.symm
      · intro hkept
        by_contra hne
        refine hkept ⟨languages, ?_, hne⟩
        rw [hc]
        rfl
    · obtain ⟨hrecord, hrows⟩ := answer_other hans hid
      refine ⟨r.languages, hrecord.trans hr, iff_of_true rfl ?_, hrows⟩
      intro hrelabels
      exact hid hrelabels.job.symm

/-- After any further calls the record is the same but for the languages, and so are the rows. -/
theorem foldl_afterCall_ended (more : List Call) (hr : s.record? id = some r)
    (hend : r.status.isTerminal) :
    (∃ languages, (more.foldl afterCall s).record? id = some { r with languages := languages }) ∧
      (more.foldl afterCall s).rowsFor id = s.rowsFor id := by
  induction more generalizing s r with
  | nil => exact ⟨⟨r.languages, hr⟩, rfl⟩
  | cons c rest ih =>
    obtain ⟨languages, hnext, -, hrows⟩ := afterCall_ended hr hend c
    obtain ⟨⟨final, hfinal⟩, hlater⟩ := ih (s := s.afterCall c) hnext hend
    exact ⟨⟨final, hfinal⟩, hlater.trans hrows⟩

/-- Calls that give the job no other languages leave its record as it is. -/
theorem foldl_afterCall_unlabelled (more : List Call) (hr : s.record? id = some r)
    (hend : r.status.isTerminal) (hkept : ∀ c ∈ more, ¬ c.Relabels id r.languages) :
    (more.foldl afterCall s).record? id = some r := by
  induction more generalizing s with
  | nil => exact hr
  | cons c rest ih =>
    rw [List.forall_mem_cons] at hkept
    obtain ⟨languages, hnext, hsame, -⟩ := afterCall_ended hr hend c
    obtain rfl : languages = r.languages := hsame.mpr hkept.1
    exact ih (s := s.afterCall c) hnext hkept.2

/-- **What a job keeps once it has ended.** After some history a job is completed or failed. Whatever
is called then, granted or refused: its rows stay as they are, and so does everything in its record
but its languages. The whole record stays as it is all the time exactly when no call gives the job
other languages. -/
theorem ended_kept_iff (calls more : List Call) (hr : (afterCalls calls).record? id = some r)
    (hend : r.status.isTerminal) :
    (∃ languages, (afterCalls (calls ++ more)).record? id =
        some { r with languages := languages }) ∧
      (afterCalls (calls ++ more)).rowsFor id = (afterCalls calls).rowsFor id ∧
      ((∀ part, part <+: more → (afterCalls (calls ++ part)).record? id = some r) ↔
        ∀ c ∈ more, ¬ c.Relabels id r.languages) := by
  have happend : ∀ part, afterCalls (calls ++ part) = part.foldl afterCall (afterCalls calls) :=
    fun part => List.foldl_append
  obtain ⟨hrecord, hrows⟩ := foldl_afterCall_ended more hr hend
  rw [happend]
  refine ⟨hrecord, hrows, ?_⟩
  constructor
  · intro hkept c hc
    obtain ⟨before, after, rfl⟩ := List.append_of_mem hc
    have hbefore : (afterCalls (calls ++ before)).record? id = some r :=
      hkept before (List.prefix_append _ _)
    obtain ⟨languages, hnext, hsame, -⟩ := afterCall_ended hbefore hend c
    refine hsame.mp ?_
    -- the record after the call is again the one that was there
    have hthen : (afterCalls (calls ++ (before ++ [c]))).record? id = some r :=
      hkept (before ++ [c]) ⟨after, by simp⟩
    rw [← List.append_assoc, afterCalls_concat, hnext, Option.some.injEq] at hthen
    exact congrArg JobRecord.languages hthen
  · intro hunlabelled part hpart
    rw [happend]
    exact foldl_afterCall_unlabelled part hr hend fun c hc => hunlabelled c (hpart.subset hc)

/-- A job that was requested and has failed. -/
def failedHistory : List Call := [requested, .fail someDay "j" "e"]

/-- A failed job stays as it is when it is asked to move on. -/
theorem ended_kept_moved :
    ∃ r, (afterCalls failedHistory).record? "j" = some r ∧ r.status.isTerminal ∧
      (afterCalls (failedHistory ++ [.transition "j" .cloning])).record? "j" = some r := by
  have hrecord : ∃ r, (afterCalls failedHistory).record? "j" = some r ∧ r.status.isTerminal :=
    ⟨_, rfl, rfl⟩
  obtain ⟨r, hr, hend⟩ := hrecord
  refine ⟨r, hr, hend, (ended_kept_iff failedHistory [.transition "j" .cloning] hr hend).2.2.mpr ?_ _
    List.prefix_rfl⟩
  intro c hc
  rw [List.mem_singleton.mp hc]
  intro ⟨other, hother, _⟩
  cases hother

/-- A failed job has other languages after it was given some. -/
theorem ended_relabelled :
    ¬ ∀ (calls : List Call) (c : Call) (id : String) (r : JobRecord),
      (afterCalls calls).record? id = some r → r.status.isTerminal →
      (afterCalls (calls ++ [c])).record? id = some r := by
  intro h
  have hrecord : ∃ r, (afterCalls failedHistory).record? "j" = some r ∧ r.status.isTerminal ∧
      r.languages = [] := ⟨_, rfl, rfl, rfl⟩
  obtain ⟨r, hr, hend, hnone⟩ := hrecord
  have hkept := h failedHistory (.setLanguages "j" ["python"]) "j" r hr hend
  have hlabelled : ((afterCalls (failedHistory ++ [.setLanguages "j" ["python"]])).record? "j").map
      JobRecord.languages = some ["python"] := rfl
  rw [hkept, Option.map_some, hnone] at hlabelled
  cases hlabelled

end RepoAudit.Store
