import Mathlib.Data.List.Nodup
import RepoAudit.Proofs.Store.History
import RepoAudit.Proofs.Store.Session

/-!
# Histories are orderly

Of a history of calls, granted and refused, only the granted ones are left in the tables. They take
each job forward through its stages, and write its findings at most once.

* `Store.granted` — the calls of a history that were granted;
* `Store.stages`, `Store.completions` — the stages that were written to a job, and the calls that
  wrote its findings;
* `Store.isChain_stages` — each stage of a job could be moved to from the one before it;
* `Store.calls_orderly` — **the stages of each job ascend, its findings are written once, other jobs
  are left alone, and a refused call leaves the tables as they were**.
-/

namespace RepoAudit.Store

variable {s s' : Store} {id : String} {r : JobRecord} {c : Call} {calls : List Call}

/-! ### The calls that were granted -/

/-- The calls that are granted from a store on. -/
def grantedFrom (s : Store) : List Call → List Call
  | [] => []
  | c :: rest =>
    match s.answer c with
    | .ok s' => c :: grantedFrom s' rest
    | .error _ => grantedFrom s rest

/-- The granted calls of a history. -/
def granted (calls : List Call) : List Call := grantedFrom {} calls

theorem grantedFrom_append (s : Store) (calls more : List Call) :
    grantedFrom s (calls ++ more) =
      grantedFrom s calls ++ grantedFrom (calls.foldl afterCall s) more := by
  induction calls generalizing s with
  | nil => rfl
  | cons c rest ih =>
    rw [List.cons_append, grantedFrom, grantedFrom, List.foldl_cons]
    cases hans : s.answer c with
    | ok s' =>
      rw [afterCall_of_ok hans]
      exact congrArg (c :: ·) (ih s')
    | error e =>
      rw [afterCall_of_error hans]
      exact ih s

theorem granted_concat_of_ok (h : (afterCalls calls).answer c = .ok s) :
    granted (calls ++ [c]) = granted calls ++ [c] := by
  rw [granted, grantedFrom_append, ← afterCalls, grantedFrom, h]
  rfl

theorem granted_concat_of_error {e : JobError} (h : (afterCalls calls).answer c = .error e) :
    granted (calls ++ [c]) = granted calls := by
  rw [granted, grantedFrom_append, ← afterCalls, grantedFrom, h]
  exact List.append_nil _

/-! ### Stages -/

/-- The stage that a call writes. -/
def Call.stage? : Call → Option JobStatus
  | .create _ job => some job.status
  | .transition _ target => some target
  | .setLanguages .. => none
  | .fail .. => some .failed
  | .complete .. => some .completed

/-- The stages that were written to a job, in order. -/
def stages (calls : List Call) (id : String) : List JobStatus :=
  ((granted calls).filter fun c => c.job = id).filterMap Call.stage?

/-- A call writes the stage that its job has afterwards, to which it could move; a call that writes no
stage leaves the one that was there. -/
theorem Change.stage {old : Option JobRecord} (h : Change c old r) :
    (c.stage? = none ∧ old.map JobRecord.status = some r.status) ∨
      (c.stage? = some r.status ∧ ∀ r₀, old = some r₀ → r₀.status.canMoveTo r.status) := by
  cases h with
  | create now j expires =>
    refine .inr ⟨rfl, ?_⟩
    intro r₀ hr₀
    cases hr₀
  | setLanguages r languages => exact .inl ⟨rfl, rfl⟩
  | transition r target hmove =>
    refine .inr ⟨rfl, ?_⟩
    intro r₀ hr₀
    obtain rfl := Option.some.inj hr₀
    exact hmove
  | fail now r error hmove =>
    refine .inr ⟨rfl, ?_⟩
    intro r₀ hr₀
    obtain rfl := Option.some.inj hr₀
    exact hmove
  | complete now r findings stats hmove =>
    refine .inr ⟨rfl, ?_⟩
    intro r₀ hr₀
    obtain rfl := Option.some.inj hr₀
    exact hmove

theorem stages_concat_of_ok (h : (afterCalls calls).answer c = .ok s) (id : String) :
    stages (calls ++ [c]) id = stages calls id ++ if c.job = id then c.stage?.toList else [] := by
  rw [stages, granted_concat_of_ok h, List.filter_append, List.filterMap_append, ← stages]
  split
  · next hid =>
    rw [List.filter_cons_of_pos (by simpa using hid)]
    cases hstage : c.stage? <;> simp [hstage]
  · next hid => rw [List.filter_cons_of_neg (by simpa using hid)]; rfl

theorem stages_concat_of_error {e : JobError} (h : (afterCalls calls).answer c = .error e)
    (id : String) : stages (calls ++ [c]) id = stages calls id := by
  rw [stages, granted_concat_of_error h, stages]

/-- Each stage of a job could be moved to from the one before it, and the last one is the stage that
the job has. -/
theorem isChain_stages (calls : List Call) (id : String) :
    (stages calls id).IsChain (fun a b => a.canMoveTo b) ∧
      (stages calls id).getLast? = ((afterCalls calls).record? id).map JobRecord.status := by
  induction calls using List.reverseRecOn with
  | nil => exact ⟨.nil, rfl⟩
  | append_singleton calls c ih =>
    obtain ⟨hchain, hlast⟩ := ih
    rw [afterCalls_concat]
    cases hans : (afterCalls calls).answer c with
    | error e =>
      rw [afterCall_of_error hans, stages_concat_of_error hans]
      exact ⟨hchain, hlast⟩
    | ok s =>
      rw [afterCall_of_ok hans, stages_concat_of_ok hans]
      split
      · next hid =>
        subst hid
        obtain ⟨r, hr, hchange⟩ := change_of_answer hans
        rw [hr]
        rcases hchange.stage with ⟨hnone, hsame⟩ | ⟨hstage, hmove⟩
        · rw [hnone, Option.toList_none, List.append_nil]
          exact ⟨hchain, hlast.trans hsame⟩
        · rw [hstage, Option.toList_some, List.getLast?_concat]
          refine ⟨List.isChain_append.mpr ⟨hchain, .singleton _, ?_⟩, rfl⟩
          intro a ha b hb
          cases hb
          rw [hlast] at ha
          obtain ⟨r₀, hr₀, rfl⟩ := Option.map_eq_some_iff.mp ha
          exact hmove r₀ hr₀
      · next hid =>
        rw [List.append_nil, (answer_other hans (Ne.symm hid)).1]
        exact ⟨hchain, hlast⟩

/-! ### Findings -/

/-- A call that writes findings. -/
def Call.isCompletion : Call → Bool
  | .complete .. => true
  | _ => false

/-- The calls that wrote the findings of a job. -/
def completions (calls : List Call) (id : String) : List Call :=
  (granted calls).filter fun c => c.isCompletion && c.job = id

theorem newRows_of_not_isCompletion (h : c.isCompletion = false) : c.newRows = [] := by
  cases c with
  | complete now id findings stats => cases h
  | _ => rfl

/-- The rows that a call writes belong to its own job. -/
theorem filter_newRows (c : Call) (id : String) :
    c.newRows.filter (fun x => x.job = id) = if c.job = id then c.newRows else [] := by
  split
  · next hid =>
    refine List.filter_eq_self.mpr ?_
    intro x hx
    simpa [hid] using job_of_mem_newRows hx
  · next hid =>
    refine List.filter_eq_nil_iff.mpr ?_
    intro x hx
    simpa [job_of_mem_newRows hx] using hid

/-- The rows of a job are those that its completions wrote. -/
theorem rowsFor_afterCalls (calls : List Call) (id : String) :
    (afterCalls calls).rowsFor id = (completions calls id).flatMap Call.newRows := by
  induction calls using List.reverseRecOn with
  | nil => rfl
  | append_singleton calls c ih =>
    rw [afterCalls_concat]
    cases hans : (afterCalls calls).answer c with
    | error e =>
      rw [afterCall_of_error hans, completions, granted_concat_of_error hans]
      exact ih
    | ok s =>
      rw [afterCall_of_ok hans, completions, granted_concat_of_ok hans, List.filter_append,
        List.flatMap_append, ← completions, ← ih]
      show s.rows.filter _ = _
      rw [rows_answer hans, List.filter_append, filter_newRows]
      refine congrArg _ ?_
      cases hcompletion : c.isCompletion with
      | false => simp [hcompletion, newRows_of_not_isCompletion]
      | true => by_cases hid : c.job = id <;> simp [hid, hcompletion]

theorem stage?_of_isCompletion (h : c.isCompletion = true) : c.stage? = some .completed := by
  cases c with
  | complete now id findings stats => rfl
  | _ => cases h

/-- Completions write one stage, over and over. -/
theorem filterMap_stage_of_isCompletion {completions : List Call}
    (h : ∀ c ∈ completions, c.isCompletion = true) :
    completions.filterMap Call.stage? = List.replicate completions.length .completed := by
  induction completions with
  | nil => rfl
  | cons c rest ih =>
    rw [List.forall_mem_cons] at h
    rw [List.filterMap_cons_some (stage?_of_isCompletion h.1), ih h.2, List.length_cons,
      List.replicate_succ]

/-- No stage is written twice, so the findings are not either. -/
theorem length_completions_le (calls : List Call) (id : String) :
    (completions calls id).length ≤ 1 := by
  have hnodup : (stages calls id).Nodup := by
    refine (JobStatus.pairwise_place_of_isChain (isChain_stages calls id).1).imp ?_
    intro a b hlt hab
    rw [hab] at hlt
    exact Nat.lt_irrefl _ hlt
  have hsub : ((completions calls id).filterMap Call.stage?).Sublist (stages calls id) := by
    rw [completions, ← List.filter_filter]
    exact List.filter_sublist.filterMap Call.stage?
  have hall : ∀ c ∈ completions calls id, c.isCompletion = true := by
    intro c hc
    exact (Bool.and_eq_true_iff.mp (List.mem_filter.mp hc).2).1
  rw [filterMap_stage_of_isCompletion hall] at hsub
  exact List.nodup_replicate.mp (hnodup.sublist hsub)

/-! ### The main statement -/

/-- A history from the side of one job: the stages that were written to it ascend, each permitted after
the one before it; the last one is the stage that it has; its findings were written by one call at
most, and its rows are what this call wrote. -/
structure Orderly (calls : List Call) (id : String) : Prop where
  ascending : (stages calls id).Pairwise fun a b => a.place < b.place
  permitted : (stages calls id).IsChain fun a b => a.canMoveTo b
  last : (stages calls id).getLast? = ((afterCalls calls).record? id).map JobRecord.status
  once : (completions calls id).length ≤ 1
  rows : (afterCalls calls).rowsFor id = (completions calls id).flatMap Call.newRows

theorem orderly (calls : List Call) (id : String) : Orderly calls id where
  ascending := JobStatus.pairwise_place_of_isChain (isChain_stages calls id).1
  permitted := (isChain_stages calls id).1
  last := (isChain_stages calls id).2
  once := length_completions_le calls id
  rows := rowsFor_afterCalls calls id

/-- Whether granted or refused, a call leaves other jobs as they are. -/
theorem afterCall_other (s : Store) (h : id ≠ c.job) :
    (s.afterCall c).record? id = s.record? id ∧ (s.afterCall c).rowsFor id = s.rowsFor id := by
  cases hans : s.answer c with
  | ok s' =>
    rw [afterCall_of_ok hans]
    exact answer_other hans h
  | error e =>
    rw [afterCall_of_error hans]
    exact ⟨rfl, rfl⟩

/-- A job can fail exactly as long as it has not ended. -/
theorem exists_fail_iff {now : Moment} {error : String} :
    (∃ s', s.fail now id error = .ok s') ↔
      ∃ r, s.record? id = some r ∧ r.status.isTerminal = false := by
  constructor
  · intro ⟨s', hs'⟩
    obtain ⟨r, hr, hmove, -⟩ := fail_eq_ok_iff.mp hs'
    exact ⟨r, hr, JobStatus.not_isTerminal_of_canMoveTo hmove⟩
  · intro ⟨r, hr, hopen⟩
    have hmove : r.status.canMoveTo .failed := JobStatus.canMoveTo_of_isTerminal hopen rfl
    exact ⟨_, fail_eq_ok_iff.mpr ⟨r, hr, hmove, rfl⟩⟩

/-- **Histories are orderly.** After any history of calls, granted and refused, and for every job: the
stages that it was given ascend, from none that has ended, and its findings were written by one call
at most. It can fail exactly as long as it has not ended. Any further call leaves the records and the
rows of all other jobs as they are; and one that is refused leaves all tables as they are, however
many rows its session has added by then. -/
theorem calls_orderly (calls : List Call) :
    (∀ id, Orderly calls id) ∧
      (∀ id now error, (∃ s, (afterCalls calls).fail now id error = .ok s) ↔
        ∃ r, (afterCalls calls).record? id = some r ∧ r.status.isTerminal = false) ∧
      (∀ c id, id ≠ c.job →
        (afterCalls (calls ++ [c])).record? id = (afterCalls calls).record? id ∧
          (afterCalls (calls ++ [c])).rowsFor id = (afterCalls calls).rowsFor id) ∧
      ∀ c e, (afterCalls calls).answer c = .error e →
        (afterCalls calls).inSession c.statements = (afterCalls calls, some e) ∧
          afterCalls (calls ++ [c]) = afterCalls calls := by
  refine ⟨orderly calls, ?_, ?_, ?_⟩
  · intro id now error
    exact exists_fail_iff
  · intro c id hid
    rw [afterCalls_concat]
    exact afterCall_other _ hid
  · intro c e hrefused
    rw [inSession_statements, hrefused, afterCalls_concat, afterCall_of_error hrefused]
    exact ⟨rfl, rfl⟩

end RepoAudit.Store
