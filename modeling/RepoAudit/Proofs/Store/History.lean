import Mathlib.Data.List.Induction
import RepoAudit.Proofs.Store

/-!
# What a history of calls leaves in the store

A store starts empty and answers one call after another; a refused call changes nothing.

* `Store.afterCalls` — the store after a history of calls;
* `Store.Change`, `Store.change_of_answer` — all that a granted call can make of the record of its
  job;
* `Store.afterCalls_sound` — an end, an error, a review and rows are only ever found with the stages
  that they belong to;
* `Store.ends_recorded_iff` — **the end of every job that has ended is recorded**, exactly when no
  call has moved a job to one of the two last stages by changing its stage and nothing else.
-/

namespace RepoAudit

/-- A job as it is when it has just been requested. -/
def Job.IsNew (j : Job) : Prop :=
  ∃ id address days now, Job.create? id address days now = some j

theorem Job.IsNew.status_eq {j : Job} (h : j.IsNew) : j.status = .pending := by
  obtain ⟨id, address, days, now, hcreate⟩ := h
  obtain ⟨expires, -, rfl⟩ := Option.map_eq_some_iff.mp hcreate
  rfl

theorem Job.IsNew.error_eq {j : Job} (h : j.IsNew) : j.error = none := by
  obtain ⟨id, address, days, now, hcreate⟩ := h
  obtain ⟨expires, -, rfl⟩ := Option.map_eq_some_iff.mp hcreate
  rfl

/-- A record of an end goes with a stage that is one: a moment of completion with the last two, an
error with a failure, a review with a completion. A failed job has both its moment and its error, or
neither. -/
structure JobRecord.Sound (r : JobRecord) : Prop where
  dated : r.completed.isSome → r.status.isTerminal
  explained : r.error.isSome → r.status = .failed
  reviewed : r.stats.isSome → r.status = .completed
  together : r.status = .failed → (r.completed.isSome ↔ r.error.isSome)

/-- Nothing of an end is recorded of a job that has not ended. -/
theorem JobRecord.Sound.bare {r : JobRecord} (h : r.Sound) (hopen : r.status.isTerminal = false) :
    r.completed = none ∧ r.error = none ∧ r.stats = none := by
  refine ⟨?_, ?_, ?_⟩
  · refine Option.not_isSome_iff_eq_none.mp fun hsome => ?_
    exact absurd (h.dated hsome) (by simp [hopen])
  · refine Option.not_isSome_iff_eq_none.mp fun hsome => ?_
    rw [h.explained hsome] at hopen
    exact absurd hopen (by decide)
  · refine Option.not_isSome_iff_eq_none.mp fun hsome => ?_
    rw [h.reviewed hsome] at hopen
    exact absurd hopen (by decide)

/-- What a job that has ended has on record, and no other job: its moment of completion, its error if
it has failed, and its review only if it is completed. -/
structure JobRecord.EndsRecorded (r : JobRecord) : Prop where
  dated : r.completed.isSome ↔ r.status.isTerminal
  explained : r.error.isSome ↔ r.status = .failed
  reviewed : r.stats.isSome → r.status = .completed

/-- Of a sound record, only the moment of completion can be lacking. -/
theorem JobRecord.Sound.endsRecorded_iff {r : JobRecord} (h : r.Sound) :
    r.EndsRecorded ↔ (r.status.isTerminal → r.completed.isSome) := by
  constructor
  · intro hends hterminal
    exact hends.dated.mpr hterminal
  · intro hdated
    refine ⟨⟨h.dated, hdated⟩, ⟨h.explained, fun hfailed => ?_⟩, h.reviewed⟩
    have hterminal : r.status.isTerminal := by rw [hfailed]; rfl
    exact (h.together hfailed).mp (hdated hterminal)

namespace Store

variable {s s' : Store} {id : String} {r r' : JobRecord} {c : Call}

/-- A created job has just been requested. -/
def Call.CreatesNew : Call → Prop
  | .create _ job => job.IsNew
  | _ => True

/-- The store after a call. One that is refused changes nothing. -/
def afterCall (s : Store) (c : Call) : Store := (s.answer c).toOption.getD s

/-- The store after a history of calls. -/
def afterCalls (calls : List Call) : Store := calls.foldl afterCall {}

theorem afterCall_of_ok (h : s.answer c = .ok s') : s.afterCall c = s' := by
  rw [afterCall, h]
  rfl

theorem afterCall_of_error {e : JobError} (h : s.answer c = .error e) : s.afterCall c = s := by
  rw [afterCall, h]
  rfl

@[simp] theorem afterCalls_concat (calls : List Call) (c : Call) :
    afterCalls (calls ++ [c]) = (afterCalls calls).afterCall c := by
  rw [afterCalls, List.foldl_append]
  rfl

/-! ### What a call makes of a record -/

/-- What a granted call makes of the record of its job, or of none. -/
inductive Change : Call → Option JobRecord → JobRecord → Prop
  | create (now : Moment) (j : Job) (expires : Moment) :
    Change (.create now j) none (.ofJob j now expires)
  | transition (r : JobRecord) (target : JobStatus) : r.status.canMoveTo target →
    Change (.transition r.id target) (some r) { r with status := target }
  | setLanguages (r : JobRecord) (languages : List String) :
    Change (.setLanguages r.id languages) (some r) { r with languages := languages }
  | fail (now : Moment) (r : JobRecord) (error : String) : r.status.canMoveTo .failed →
    Change (.fail now r.id error) (some r)
      { r with status := .failed, error := some error, completed := some now.asUniversal }
  | complete (now : Moment) (r : JobRecord) (findings : List Finding)
      (stats : Option ReviewStats) : r.status.canMoveTo .completed →
    Change (.complete now r.id findings stats) (some r)
      { r with status := .completed, stats := stats, completed := some now.asUniversal }

/-- A granted call makes one of these changes, and its job is found with the changed record. -/
theorem change_of_answer (h : s.answer c = .ok s') :
    ∃ r, s'.record? c.job = some r ∧ Change c (s.record? c.job) r := by
  cases c with
  | create now j =>
    obtain ⟨expires, -, hnone, -⟩ := create_eq_ok_iff.mp h
    obtain ⟨⟨expires, hr⟩, -⟩ := record?_create h
    exact ⟨_, hr, hnone.symm ▸ .create now j expires⟩
  | transition id target =>
    obtain ⟨r, hr, hmove, rfl⟩ := transition_eq_ok_iff.mp h
    obtain rfl := id_of_record? hr
    exact ⟨_, record?_update (fun _ => rfl) hr, hr.symm ▸ .transition r target hmove⟩
  | setLanguages id languages =>
    obtain ⟨r, hr, rfl⟩ := setLanguages_eq_ok_iff.mp h
    obtain rfl := id_of_record? hr
    exact ⟨_, record?_update (fun _ => rfl) hr, hr.symm ▸ .setLanguages r languages⟩
  | fail now id error =>
    obtain ⟨r, hr, hmove, rfl⟩ := fail_eq_ok_iff.mp h
    obtain rfl := id_of_record? hr
    exact ⟨_, record?_update (fun _ => rfl) hr, hr.symm ▸ .fail now r error hmove⟩
  | complete now id findings stats =>
    obtain ⟨r, hr, hmove, -, -, rfl⟩ := complete_eq_ok_iff.mp h
    obtain rfl := id_of_record? hr
    exact ⟨_, record?_update (fun _ => rfl) hr, hr.symm ▸ .complete now r findings stats hmove⟩

/-! ### What every history keeps -/

/-- A change of a sound record leaves a sound record, and a job that has just been requested has
one. -/
theorem Change.sound {old : Option JobRecord} (hchange : Change c old r) (hc : c.CreatesNew)
    (hold : ∀ r, old = some r → r.Sound) : r.Sound := by
  cases hchange with
  | create now j expires =>
    have hpending : j.status = .pending := hc.status_eq
    have herror : j.error = none := hc.error_eq
    refine ⟨?_, ?_, ?_, ?_⟩ <;> simp [JobRecord.ofJob, hpending, herror]
  | transition r target hmove =>
    have hopen : r.status.isTerminal = false := JobStatus.not_isTerminal_of_canMoveTo hmove
    obtain ⟨hcompleted, herror, hstats⟩ := (hold r rfl).bare hopen
    refine ⟨?_, ?_, ?_, ?_⟩ <;> simp [hcompleted, herror, hstats]
  | setLanguages r languages =>
    have hr : r.Sound := hold r rfl
    exact ⟨hr.dated, hr.explained, hr.reviewed, hr.together⟩
  | fail now r error hmove =>
    have hopen : r.status.isTerminal = false := JobStatus.not_isTerminal_of_canMoveTo hmove
    obtain ⟨-, -, hstats⟩ := (hold r rfl).bare hopen
    refine ⟨?_, ?_, ?_, ?_⟩ <;> simp [hstats, JobStatus.isTerminal]
  | complete now r findings stats hmove =>
    have hopen : r.status.isTerminal = false := JobStatus.not_isTerminal_of_canMoveTo hmove
    obtain ⟨-, herror, -⟩ := (hold r rfl).bare hopen
    refine ⟨?_, ?_, ?_, ?_⟩ <;> simp [herror, JobStatus.isTerminal]

/-- A completed job stays completed. -/
theorem Change.completed {old : Option JobRecord} (hchange : Change c old r)
    (hold : ∃ r, old = some r ∧ r.status = .completed) : r.status = .completed := by
  obtain ⟨r₀, rfl, hcompleted⟩ := hold
  cases hchange with
  | setLanguages _ languages => exact hcompleted
  | transition _ target hmove =>
    have hopen := JobStatus.not_isTerminal_of_canMoveTo hmove
    rw [hcompleted] at hopen
    exact absurd hopen (by decide)
  | fail now _ error hmove =>
    rw [hcompleted] at hmove
    exact absurd hmove (by decide)
  | complete now _ findings stats hmove => rfl

/-- Every record is sound, and rows are there for completed jobs only. -/
structure Sound (s : Store) : Prop where
  records : ∀ id r, s.record? id = some r → r.Sound
  rows : ∀ x ∈ s.rows, ∃ r, s.record? x.job = some r ∧ r.status = .completed

/-- A row that a call writes is a row of a job that the call completes. -/
theorem Change.completed_of_mem_newRows {old : Option JobRecord} {x : FindingRow}
    (hchange : Change c old r) (hx : x ∈ c.newRows) : r.status = .completed := by
  cases hchange with
  | complete now r findings stats hmove => rfl
  | _ => exact absurd hx List.not_mem_nil

theorem Sound.answer (hs : s.Sound) (hc : c.CreatesNew) (h : s.answer c = .ok s') : s'.Sound := by
  obtain ⟨r, hr, hchange⟩ := change_of_answer h
  refine ⟨fun id r' hr' => ?_, fun x hx => ?_⟩
  · by_cases hid : id = c.job
    · rw [hid, hr] at hr'
      obtain rfl := Option.some.inj hr'
      exact hchange.sound hc (hs.records c.job)
    · rw [(answer_other h hid).1] at hr'
      exact hs.records id r' hr'
  · rw [rows_answer h, List.mem_append] at hx
    rcases hx with hold | hnew
    · by_cases hid : x.job = c.job
      · have hcompleted := hs.rows x hold
        rw [hid] at hcompleted ⊢
        exact ⟨r, hr, hchange.completed hcompleted⟩
      · rw [(answer_other h hid).1]
        exact hs.rows x hold
    · rw [job_of_mem_newRows hnew]
      exact ⟨r, hr, hchange.completed_of_mem_newRows hnew⟩

theorem Sound.afterCall (hs : s.Sound) (hc : c.CreatesNew) : (s.afterCall c).Sound := by
  cases h : s.answer c with
  | ok s' =>
    rw [afterCall_of_ok h]
    exact hs.answer hc h
  | error e =>
    rw [afterCall_of_error h]
    exact hs

/-- An end, an error, a review and rows are only ever found with the stages they belong to. -/
theorem afterCalls_sound (calls : List Call) (hnew : ∀ c ∈ calls, c.CreatesNew) :
    (afterCalls calls).Sound := by
  induction calls using List.reverseRecOn with
  | nil => exact ⟨fun id r hr => by simp [afterCalls, record?] at hr,
      fun x hx => absurd hx List.not_mem_nil⟩
  | append_singleton calls c ih =>
    rw [List.forall_mem_append] at hnew
    rw [afterCalls_concat]
    exact (ih hnew.1).afterCall (hnew.2 c (List.mem_singleton_self c))

/-! ### Whose end is recorded -/

/-- What has ended has a moment of completion. -/
def Dated (s : Store) : Prop :=
  ∀ id r, s.record? id = some r → r.status.isTerminal → r.completed.isSome

/-- The end of every job that has ended is recorded, and of no other job, and rows are there for
completed jobs only. -/
structure EndsRecorded (s : Store) : Prop where
  records : ∀ id r, s.record? id = some r → r.EndsRecorded
  rows : ∀ x ∈ s.rows, ∃ r, s.record? x.job = some r ∧ r.status = .completed

theorem Sound.endsRecorded_iff (hs : s.Sound) : s.EndsRecorded ↔ s.Dated := by
  constructor
  · intro h id r hr
    exact (hs.records id r hr).endsRecorded_iff.mp (h.records id r hr)
  · intro h
    refine ⟨fun id r hr => ?_, hs.rows⟩
    exact (hs.records id r hr).endsRecorded_iff.mpr (h id r hr)

/-- A call that changes the stage of a job to one of the last two, and nothing else. -/
def Call.isBareEnd : Call → Bool
  | .transition _ target => target.isTerminal
  | _ => false

/-- Of a job whose end is recorded if it has ended, the same is true after a change, unless the
change is a bare end. -/
theorem Change.dated_iff {old : Option JobRecord} (hchange : Change c old r) (hc : c.CreatesNew)
    (hsound : ∀ r, old = some r → r.Sound) :
    (r.status.isTerminal → r.completed.isSome) ↔
      (∀ r, old = some r → r.status.isTerminal → r.completed.isSome) ∧ c.isBareEnd = false := by
  cases hchange with
  | create now j expires =>
    have hpending : j.status = .pending := hc.status_eq
    simp [JobRecord.ofJob, hpending, JobStatus.isTerminal, Call.isBareEnd]
  | transition r target hmove =>
    have hopen : r.status.isTerminal = false := JobStatus.not_isTerminal_of_canMoveTo hmove
    obtain ⟨hcompleted, -, -⟩ := (hsound r rfl).bare hopen
    simp [hcompleted, hopen, Call.isBareEnd]
  | setLanguages r languages => simp [Call.isBareEnd]
  | fail now r error hmove =>
    have hopen : r.status.isTerminal = false := JobStatus.not_isTerminal_of_canMoveTo hmove
    simp [hopen, Call.isBareEnd]
  | complete now r findings stats hmove =>
    have hopen : r.status.isTerminal = false := JobStatus.not_isTerminal_of_canMoveTo hmove
    simp [hopen, Call.isBareEnd]

/-- A granted call keeps the ends on record unless it is a bare end. -/
theorem dated_answer_iff (hs : s.Sound) (hc : c.CreatesNew) (h : s.answer c = .ok s') :
    s'.Dated ↔ s.Dated ∧ c.isBareEnd = false := by
  obtain ⟨r, hr, hchange⟩ := change_of_answer h
  have hown := hchange.dated_iff hc (hs.records c.job)
  constructor
  · intro hdated
    obtain ⟨hbefore, hbare⟩ := hown.mp (hdated c.job r hr)
    refine ⟨fun id r' hr' => ?_, hbare⟩
    by_cases hid : id = c.job
    · exact hbefore r' (hid ▸ hr')
    · exact hdated id r' ((answer_other h hid).1.trans hr')
  · rintro ⟨hdated, hbare⟩ id r' hr'
    by_cases hid : id = c.job
    · rw [hid, hr] at hr'
      obtain rfl := Option.some.inj hr'
      exact hown.mpr ⟨hdated c.job, hbare⟩
    · exact hdated id r' ((answer_other h hid).1.symm.trans hr')

/-- In a history, a bare end was granted. -/
def BarelyEnded (calls : List Call) : Prop :=
  ∃ before c, before ++ [c] <+: calls ∧ c.isBareEnd ∧ ∃ s, (afterCalls before).answer c = .ok s

theorem not_barelyEnded_nil : ¬ BarelyEnded [] := by
  rintro ⟨before, c, hprefix, -⟩
  exact absurd (List.prefix_nil.mp hprefix) (by simp)

theorem barelyEnded_concat_iff (calls : List Call) (c : Call) :
    BarelyEnded (calls ++ [c]) ↔
      BarelyEnded calls ∨ c.isBareEnd ∧ ∃ s, (afterCalls calls).answer c = .ok s := by
  constructor
  · rintro ⟨before, c', hprefix, hbare, hgranted⟩
    rcases List.prefix_concat_iff.mp hprefix with hwhole | hearlier
    · obtain ⟨rfl, hlast⟩ := List.append_inj' hwhole rfl
      obtain rfl := List.singleton_inj.mp hlast
      exact .inr ⟨hbare, hgranted⟩
    · exact .inl ⟨before, c', hearlier, hbare, hgranted⟩
  · rintro (⟨before, c', hearlier, hbare, hgranted⟩ | ⟨hbare, hgranted⟩)
    · exact ⟨before, c', hearlier.trans (List.prefix_append calls [c]), hbare, hgranted⟩
    · exact ⟨calls, c, List.prefix_rfl, hbare, hgranted⟩

theorem dated_afterCalls_iff (calls : List Call) (hnew : ∀ c ∈ calls, c.CreatesNew) :
    (afterCalls calls).Dated ↔ ¬ BarelyEnded calls := by
  induction calls using List.reverseRecOn with
  | nil =>
    refine iff_of_true (fun id r hr => ?_) not_barelyEnded_nil
    simp [afterCalls, record?] at hr
  | append_singleton calls c ih =>
    rw [List.forall_mem_append] at hnew
    have hc : c.CreatesNew := hnew.2 c (List.mem_singleton_self c)
    rw [afterCalls_concat, barelyEnded_concat_iff, not_or, ← ih hnew.1]
    cases h : (afterCalls calls).answer c with
    | ok s =>
      rw [afterCall_of_ok h, dated_answer_iff (afterCalls_sound calls hnew.1) hc h]
      simp
    | error e =>
      rw [afterCall_of_error h]
      simp

/-- Whatever is called, nothing of an end is recorded of a job that has not ended and only completed
jobs have rows. **The end of every job that has ended is recorded** as well, exactly when no call was
granted that moves a job to one of the two last stages by changing its stage and nothing else. -/
theorem ends_recorded_iff (calls : List Call) (hnew : ∀ c ∈ calls, c.CreatesNew) :
    (afterCalls calls).Sound ∧ ((afterCalls calls).EndsRecorded ↔ ¬ BarelyEnded calls) := by
  have hsound : (afterCalls calls).Sound := afterCalls_sound calls hnew
  refine ⟨hsound, ?_⟩
  rw [hsound.endsRecorded_iff]
  exact dated_afterCalls_iff calls hnew

/-- A moment of the examples below. -/
def someDay : Moment := ⟨739000, 0, some 0⟩

/-- The request of a job. -/
def requested : Call :=
  .create someDay {
    id := "j", address := "https://github.com/octo/repo"
    created := some someDay, expires := some { someDay with day := someDay.day + 7 } }

theorem createsNew_requested : requested.CreatesNew :=
  ⟨"j", "https://github.com/octo/repo", 7, someDay, rfl⟩

/-- The end of a job that is cloned and then completed is recorded. -/
theorem ends_recorded_completed :
    (afterCalls [requested, .transition "j" .cloning, .complete someDay "j" [] none]).EndsRecorded := by
  refine (ends_recorded_iff _ ?_).2.mpr ?_
  · simp only [List.forall_mem_cons]
    exact ⟨createsNew_requested, trivial, trivial, fun c hc => absurd hc List.not_mem_nil⟩
  · rintro ⟨before, c, hprefix, hbare, -⟩
    have hmem : c ∈ [requested, .transition "j" .cloning, .complete someDay "j" [] none] :=
      hprefix.subset (by simp)
    simp only [List.mem_cons, List.not_mem_nil, or_false] at hmem
    rcases hmem with rfl | rfl | rfl <;> exact absurd hbare (by decide)

/-- A job that is completed by a mere change of its stage has no moment of completion. -/
theorem ends_unrecorded :
    ¬ ∀ calls : List Call, (∀ c ∈ calls, c.CreatesNew) → (afterCalls calls).EndsRecorded := by
  intro h
  have hends : (afterCalls [requested, .transition "j" .completed]).EndsRecorded := by
    refine h _ ?_
    simp only [List.forall_mem_cons]
    exact ⟨createsNew_requested, trivial, fun c hc => absurd hc List.not_mem_nil⟩
  have hrecord : ∃ r, (afterCalls [requested, .transition "j" .completed]).record? "j" = some r ∧
      r.status = .completed ∧ r.completed = none := ⟨_, rfl, rfl, rfl⟩
  obtain ⟨r, hr, hstatus, hundated⟩ := hrecord
  have hdated := (hends.records "j" r hr).dated.mpr (by rw [hstatus]; rfl)
  exact absurd hdated (by simp [hundated])

end Store

end RepoAudit
