import Mathlib.Data.List.Chain
import RepoAudit.Aggregate
import RepoAudit.Store

/-!
# What the operations on the store do

Every operation that writes is a `Call`. The lemmas below say exactly when a call is granted and
what the tables hold then; nothing after this module opens an operation.

* `Store.transition_eq_ok_iff`, `Store.fail_eq_ok_iff`, `Store.complete_eq_ok_iff` and their like —
  when an operation is granted, and the store it answers with;
* `Store.answer_other` — a granted call leaves the record and the rows of other jobs as they are;
* `Call.newRows`, `Store.rows_answer` — the rows that a granted call adds;
* `Store.findingsOf_eq_ranked` — what is read back are the findings that were written, ranked.
-/

namespace RepoAudit

namespace JobStatus

theorem place_lt_of_canMoveTo {a b : JobStatus} (h : a.canMoveTo b) : a.place < b.place := by
  cases a <;> cases b <;> simp_all [canMoveTo, isTerminal, place]

theorem not_isTerminal_of_canMoveTo {a b : JobStatus} (h : a.canMoveTo b) : a.isTerminal = false := by
  cases a <;> simp_all [canMoveTo, isTerminal]

/-- A job that has not ended may be ended either way, however early. -/
theorem canMoveTo_of_isTerminal {a b : JobStatus} (ha : a.isTerminal = false)
    (hb : b.isTerminal = true) : a.canMoveTo b := by
  cases a <;> cases b <;> simp_all [canMoveTo, isTerminal, place]

/-- A chain of permitted moves ascends. -/
theorem pairwise_place_of_isChain {l : List JobStatus} (h : l.IsChain fun a b => a.canMoveTo b) :
    l.Pairwise fun a b => a.place < b.place := by
  let before : JobStatus → JobStatus → Prop := fun a b => a.place < b.place
  have hbefore : l.IsChain before := h.imp fun _ _ => place_lt_of_canMoveTo
  have : Trans before before before := ⟨Nat.lt_trans⟩
  exact List.isChain_iff_pairwise.mp hbefore

/-- In a chain of permitted moves only the last stage can be terminal. -/
theorem not_isTerminal_of_isChain {l : List JobStatus} {b : JobStatus}
    (h : (l ++ [b]).IsChain fun a b => a.canMoveTo b) : ∀ a ∈ l, a.isTerminal = false := by
  induction l with
  | nil => exact fun a ha => absurd ha List.not_mem_nil
  | cons x rest ih =>
    intro a ha
    rcases List.mem_cons.mp ha with rfl | hrest
    · cases rest with
      | nil => exact not_isTerminal_of_canMoveTo (List.isChain_cons_cons.mp h).1
      | cons y rest => exact not_isTerminal_of_canMoveTo (List.isChain_cons_cons.mp h).1
    · exact ih h.tail a hrest

end JobStatus

/-- The record of a job that is added to the store at some moment and kept until another. -/
def JobRecord.ofJob (j : Job) (now expires : Moment) : JobRecord where
  id := j.id
  address := j.address
  status := j.status
  languages := j.languages
  error := j.error
  created := (j.created.getD now).asUniversal
  expires := expires.asUniversal

@[simp] theorem JobRecord.id_ofJob (j : Job) (now expires : Moment) :
    (JobRecord.ofJob j now expires).id = j.id := rfl

namespace Store

/-- A call of the store that writes. -/
inductive Call where
  | create (now : Moment) (job : Job)
  | transition (id : String) (target : JobStatus)
  | setLanguages (id : String) (languages : List String)
  | fail (now : Moment) (id error : String)
  | complete (now : Moment) (id : String) (findings : List Finding) (stats : Option ReviewStats)

/-- The job that a call is about. -/
def Call.job : Call → String
  | .create _ job => job.id
  | .transition id _ => id
  | .setLanguages id _ => id
  | .fail _ id _ => id
  | .complete _ id _ _ => id

/-- What the store answers to a call. -/
def answer (s : Store) : Call → Except JobError Store
  | .create now job => s.create now job
  | .transition id target => s.transition id target
  | .setLanguages id languages => s.setLanguages id languages
  | .fail now id error => s.fail now id error
  | .complete now id findings stats => s.complete now id findings stats

/-- The rows of a job. -/
def rowsFor (s : Store) (id : String) : List FindingRow := s.rows.filter fun r => r.job = id

variable {s s' : Store} {id id' : String} {r : JobRecord}

/-! ### Records -/

theorem id_of_record? (h : s.record? id = some r) : r.id = id := by
  simpa using List.find?_some h

@[simp] theorem rows_update (f : JobRecord → JobRecord) : (s.update id f).rows = s.rows := rfl

@[simp] theorem rowsFor_update (f : JobRecord → JobRecord) :
    (s.update id f).rowsFor id' = s.rowsFor id' := rfl

@[simp] theorem record?_rows (rows : List FindingRow) :
    Store.record? { s with rows := rows } id = s.record? id := rfl

theorem record?_update_eq_map {f : JobRecord → JobRecord} (hf : ∀ r, (f r).id = r.id) :
    (s.update id' f).record? id = (s.record? id).map fun r => if r.id = id' then f r else r := by
  rw [record?, update, List.find?_map, record?]
  congr 2
  funext r
  by_cases hr : r.id = id' <;> simp [hr, hf]

/-- The changed record is found under its identifier. -/
theorem record?_update {f : JobRecord → JobRecord} (hf : ∀ r, (f r).id = r.id)
    (h : s.record? id = some r) : (s.update id f).record? id = some (f r) := by
  rw [record?_update_eq_map hf, h, Option.map_some, if_pos (id_of_record? h)]

theorem record?_update_other {f : JobRecord → JobRecord} (hf : ∀ r, (f r).id = r.id)
    (h : id ≠ id') : (s.update id' f).record? id = s.record? id := by
  rw [record?_update_eq_map hf]
  cases hr : s.record? id with
  | none => rfl
  | some r => rw [Option.map_some, if_neg (id_of_record? hr ▸ h)]

/-! ### When operations are granted -/

theorem pure_eq_ok_iff {a b : Store} : (pure a : Except JobError Store) = .ok b ↔ b = a := by
  simpa [pure, Except.pure] using eq_comm

/-- What depends on a permitted move is granted when the move is permitted and the rest is. -/
theorem movable_bind_eq_ok_iff {target : JobStatus} {k : JobRecord → Except JobError Store} :
    (s.movable id target >>= k) = .ok s' ↔
      ∃ r, s.record? id = some r ∧ r.status.canMoveTo target ∧ k r = .ok s' := by
  rw [movable]
  cases hr : s.record? id with
  | none => simp [bind, Except.bind]
  | some r =>
    by_cases hmove : r.status.canMoveTo target
    · simp [bind, Except.bind, hmove]
    · simp [bind, Except.bind, hmove]

theorem create_eq_ok_iff {now : Moment} {j : Job} :
    s.create now j = .ok s' ↔ ∃ expires, j.expires = some expires ∧ s.record? j.id = none ∧
      s' = { s with records := s.records ++ [.ofJob j now expires] } := by
  rw [create]
  cases j.expires with
  | none => simp
  | some expires =>
    cases s.record? j.id with
    | none => simpa [JobRecord.ofJob] using eq_comm
    | some r => simp

/-- A created job is found with its record; the rows are those that were there. -/
theorem record?_create {now : Moment} {j : Job} (h : s.create now j = .ok s') :
    (∃ expires, s'.record? j.id = some (.ofJob j now expires)) ∧ s'.rows = s.rows := by
  obtain ⟨expires, -, hnone, rfl⟩ := create_eq_ok_iff.mp h
  rw [record?] at hnone
  refine ⟨⟨expires, ?_⟩, rfl⟩
  simp [record?, List.find?_append, hnone]

theorem transition_eq_ok_iff {target : JobStatus} :
    s.transition id target = .ok s' ↔ ∃ r, s.record? id = some r ∧ r.status.canMoveTo target ∧
      s' = s.update id fun r => { r with status := target } := by
  rw [transition, movable_bind_eq_ok_iff]
  simp only [pure_eq_ok_iff]

theorem setLanguages_eq_ok_iff {languages : List String} :
    s.setLanguages id languages = .ok s' ↔ ∃ r, s.record? id = some r ∧
      s' = s.update id fun r => { r with languages := languages } := by
  rw [setLanguages]
  cases s.record? id with
  | none => simp
  | some r => simpa using eq_comm

theorem fail_eq_ok_iff {now : Moment} {error : String} :
    s.fail now id error = .ok s' ↔ ∃ r, s.record? id = some r ∧ r.status.canMoveTo .failed ∧
      s' = s.update id fun r =>
        { r with status := .failed, error := some error, completed := some now.asUniversal } := by
  rw [fail, movable_bind_eq_ok_iff]
  simp only [pure_eq_ok_iff]

/-- Rows may be added: their identifiers are distinct and not in the table yet. -/
def Insertable (s : Store) (rows : List FindingRow) : Prop :=
  (rows.map fun r => r.finding.id).Nodup ∧
    ∀ r ∈ rows, ∀ x ∈ s.rows, x.finding.id ≠ r.finding.id

theorem insertRows_eq_ok_iff {rows : List FindingRow} :
    s.insertRows rows = .ok s' ↔ s.Insertable rows ∧ s' = { s with rows := s.rows ++ rows } := by
  induction rows generalizing s with
  | nil => simpa [insertRows, Insertable] using eq_comm
  | cons r rest ih =>
    rw [insertRows]
    split
    · next hused =>
      refine iff_of_false (by simp) fun ⟨⟨_, hfree⟩, _⟩ => ?_
      obtain ⟨x, hx, hsame⟩ := List.any_eq_true.mp hused
      exact hfree r List.mem_cons_self x hx (by simpa using hsame)
    · next hfree =>
      have hfree' : ∀ x ∈ s.rows, x.finding.id ≠ r.finding.id := by simpa using hfree
      rw [ih, List.append_assoc, List.singleton_append]
      refine and_congr_left fun _ => ?_
      simp only [Insertable, List.map_cons, List.nodup_cons, List.mem_append, List.mem_singleton,
        List.mem_map, not_exists, not_and, List.forall_mem_cons]
      constructor
      · rintro ⟨hnodup, hrest⟩
        exact ⟨⟨fun x hx => fun he => hrest x hx r (.inr rfl) he.symm, hnodup⟩, hfree',
          fun x hx y hy => hrest x hx y (.inl hy)⟩
      · rintro ⟨⟨hnew, hnodup⟩, -, hrest⟩
        refine ⟨hnodup, fun x hx y hy => ?_⟩
        rcases hy with hy | rfl
        · exact hrest x hx y hy
        · exact fun he => hnew x hx he.symm

theorem complete_eq_ok_iff {now : Moment} {findings : List Finding} {stats : Option ReviewStats} :
    s.complete now id findings stats = .ok s' ↔
      ∃ r, s.record? id = some r ∧ r.status.canMoveTo .completed ∧ findings.all holdsLine ∧
        s.Insertable (rowsOf id findings) ∧
        s' = Store.update { s with rows := s.rows ++ rowsOf id findings } id fun r =>
          { r with status := .completed, stats := stats, completed := some now.asUniversal } := by
  rw [complete, movable_bind_eq_ok_iff]
  refine exists_congr fun r => and_congr_right fun _ => and_congr_right fun _ => ?_
  cases hall : findings.all holdsLine with
  | false => simp [bind, Except.bind, throw, throwThe, MonadExceptOf.throw]
  | true =>
    cases hins : s.insertRows (rowsOf id findings) with
    | error e =>
      have hnot : ¬ s.Insertable (rowsOf id findings) := fun h => by
        rw [insertRows_eq_ok_iff.mpr ⟨h, rfl⟩] at hins
        exact absurd hins (by simp)
      simp [bind, Except.bind, hnot]
    | ok t =>
      obtain ⟨hok, rfl⟩ := insertRows_eq_ok_iff.mp hins
      simp [bind, Except.bind, pure_eq_ok_iff, hok]

/-! ### Rows -/

theorem job_of_mem_rowsOf {findings : List Finding} {x : FindingRow} (h : x ∈ rowsOf id findings) :
    x.job = id := by
  rw [rowsOf, List.mem_mapIdx] at h
  obtain ⟨n, hn, rfl⟩ := h
  rfl

@[simp] theorem map_finding_rowsOf (id : String) (findings : List Finding) :
    (rowsOf id findings).map FindingRow.finding = findings := by
  exact List.ext_getElem (by simp [rowsOf]) (by simp [rowsOf])

theorem rowsFor_append_rowsOf (s : Store) (id : String) (findings : List Finding) :
    Store.rowsFor { s with rows := s.rows ++ rowsOf id findings } id =
      s.rowsFor id ++ rowsOf id findings := by
  rw [rowsFor, List.filter_append, rowsFor]
  congr 1
  exact List.filter_eq_self.mpr fun x hx => by simpa using job_of_mem_rowsOf hx

theorem rowsFor_append_rowsOf_other (findings : List Finding) (h : id ≠ id') :
    Store.rowsFor { s with rows := s.rows ++ rowsOf id' findings } id = s.rowsFor id := by
  have hnone : (rowsOf id' findings).filter (fun x => x.job = id) = [] := by
    refine List.filter_eq_nil_iff.mpr fun x hx => ?_
    simpa [job_of_mem_rowsOf hx] using h.symm
  rw [rowsFor, List.filter_append, hnone, List.append_nil, rowsFor]

/-- The order of rows is that of their findings, ties broken by position, so sorting the rows sorts
the findings stably. -/
theorem mergeSort_rowsOf (id : String) (findings : List Finding) :
    ((rowsOf id findings).mergeSort FindingRow.precedes).map FindingRow.finding =
      Finding.ranked findings := by
  let row : Finding × Nat → FindingRow := fun x => ⟨id, x.2, x.1⟩
  let le : Finding → Finding → Bool := fun a b => a.severity.rank ≤ b.severity.rank
  have hrows : rowsOf id findings = findings.zipIdx.map row := List.mapIdx_eq_zipIdx_map
  have horder : ∀ a ∈ findings.zipIdx, ∀ b ∈ findings.zipIdx,
      List.zipIdxLE le a b = FindingRow.precedes (row a) (row b) := by
    intro a _ b _
    simp only [List.zipIdxLE, le, row, FindingRow.precedes]
    grind
  rw [hrows, ← List.map_mergeSort horder, List.map_map]
  exact List.mergeSort_zipIdx

/-- What is read back are the findings that were written, the most severe first. -/
theorem findingsOf_eq_ranked {findings : List Finding} (h : s.rowsFor id = rowsOf id findings) :
    s.findingsOf id = Finding.ranked findings := by
  rw [findingsOf, ← mergeSort_rowsOf id findings, ← h, rowsFor]

theorem findingsOf_eq_nil (h : s.rowsFor id = []) : s.findingsOf id = [] := by
  rw [findingsOf, ← rowsFor, h, List.mergeSort_nil, List.map_nil]

/-! ### What a call leaves alone -/

/-- A granted call leaves other jobs as they are. -/
theorem answer_other {c : Call} (h : s.answer c = .ok s') (hid : id ≠ c.job) :
    s'.record? id = s.record? id ∧ s'.rowsFor id = s.rowsFor id := by
  cases c with
  | create now j =>
    obtain ⟨expires, -, -, rfl⟩ := create_eq_ok_iff.mp h
    refine ⟨?_, rfl⟩
    have hj : j.id ≠ id := hid.symm
    simp [record?, List.find?_append, hj]
  | transition id' target =>
    obtain ⟨r, -, -, rfl⟩ := transition_eq_ok_iff.mp h
    exact ⟨record?_update_other (fun _ => rfl) hid, rfl⟩
  | setLanguages id' languages =>
    obtain ⟨r, -, rfl⟩ := setLanguages_eq_ok_iff.mp h
    exact ⟨record?_update_other (fun _ => rfl) hid, rfl⟩
  | fail now id' error =>
    obtain ⟨r, -, -, rfl⟩ := fail_eq_ok_iff.mp h
    exact ⟨record?_update_other (fun _ => rfl) hid, rfl⟩
  | complete now id' findings stats =>
    obtain ⟨r, -, -, -, -, rfl⟩ := complete_eq_ok_iff.mp h
    exact ⟨record?_update_other (fun _ => rfl) hid, rowsFor_append_rowsOf_other findings hid⟩

/-- The job of a granted call is in the store afterwards. -/
theorem isSome_record?_answer_self {c : Call} (h : s.answer c = .ok s') :
    (s'.record? c.job).isSome := by
  cases c with
  | create now j =>
    obtain ⟨expires, -, -, rfl⟩ := create_eq_ok_iff.mp h
    rw [record?, List.find?_append]
    simp [Call.job]
  | transition id' target =>
    obtain ⟨r, hr, -, rfl⟩ := transition_eq_ok_iff.mp h
    exact Option.isSome_of_eq_some (record?_update (fun _ => rfl) hr)
  | setLanguages id' languages =>
    obtain ⟨r, hr, rfl⟩ := setLanguages_eq_ok_iff.mp h
    exact Option.isSome_of_eq_some (record?_update (fun _ => rfl) hr)
  | fail now id' error =>
    obtain ⟨r, hr, -, rfl⟩ := fail_eq_ok_iff.mp h
    exact Option.isSome_of_eq_some (record?_update (fun _ => rfl) hr)
  | complete now id' findings stats =>
    obtain ⟨r, hr, -, -, -, rfl⟩ := complete_eq_ok_iff.mp h
    exact Option.isSome_of_eq_some (record?_update (fun _ => rfl) hr)

/-- No granted call removes a job. -/
theorem isSome_record?_answer {c : Call} (h : s.answer c = .ok s')
    (hid : (s.record? id).isSome) : (s'.record? id).isSome := by
  by_cases hjob : id = c.job
  · rw [hjob]
    exact isSome_record?_answer_self h
  · rwa [(answer_other h hjob).1]

/-- The rows that a call writes when it is granted. -/
def Call.newRows : Call → List FindingRow
  | .complete _ id findings _ => rowsOf id findings
  | _ => []

theorem job_of_mem_newRows {c : Call} {x : FindingRow} (h : x ∈ c.newRows) : x.job = c.job := by
  cases c with
  | complete now id findings stats => exact job_of_mem_rowsOf h
  | _ => exact absurd h List.not_mem_nil

/-- A granted call keeps all rows and writes its own after them. -/
theorem rows_answer {c : Call} (h : s.answer c = .ok s') : s'.rows = s.rows ++ c.newRows := by
  cases c with
  | create now j =>
    obtain ⟨expires, -, -, rfl⟩ := create_eq_ok_iff.mp h
    exact (List.append_nil _).symm
  | transition id' target =>
    obtain ⟨r, -, -, rfl⟩ := transition_eq_ok_iff.mp h
    exact (List.append_nil _).symm
  | setLanguages id' languages =>
    obtain ⟨r, -, rfl⟩ := setLanguages_eq_ok_iff.mp h
    exact (List.append_nil _).symm
  | fail now id' error =>
    obtain ⟨r, -, -, rfl⟩ := fail_eq_ok_iff.mp h
    exact (List.append_nil _).symm
  | complete now id' findings stats =>
    obtain ⟨r, -, -, -, -, rfl⟩ := complete_eq_ok_iff.mp h
    rfl

/-- A granted call adds rows to its own job only. -/
theorem mem_rows_answer {c : Call} {x : FindingRow} (h : s.answer c = .ok s') (hx : x ∈ s'.rows) :
    x ∈ s.rows ∨ x.job = c.job := by
  rw [rows_answer h, List.mem_append] at hx
  exact hx.imp_right job_of_mem_newRows

/-- No granted call removes rows. -/
theorem rows_subset_answer {c : Call} (h : s.answer c = .ok s') : s.rows ⊆ s'.rows := by
  rw [rows_answer h]
  exact List.subset_append_left _ _

end Store

end RepoAudit
