import RepoAudit.Proofs.Store

/-!
# A job seen from a store of its own

What a store answers about a job depends on the record and the rows of this job; only a completion
also looks at the rows of other jobs, for the identifiers of findings.

* `JobRecord.undated`, `Job.undated` — a job but for the moment at which it was completed;
* `Store.Mirrors` — a store that holds what another one holds about one job, as `Store.only` does;
* `Store.Agree` — two answers that grant with such stores, or refuse;
* `Store.Mirrors.transition`, `Store.Mirrors.fail` and their like — **both stores agree on every
  operation**, on a completion when the other jobs have no finding with one of its identifiers;
* `Store.Mirrors.get` — the job is read back the same from both.
-/

namespace RepoAudit

/-- A record without the moment of its completion, though not without a trace of it. -/
def JobRecord.undated (r : JobRecord) : JobRecord :=
  { r with completed := r.completed.map fun _ => default }

/-- A job without the moment of its completion, though not without a trace of it. -/
def Job.undated (j : Job) : Job := { j with completed := j.completed.map fun _ => default }

namespace JobRecord

variable {r r' : JobRecord}

theorem status_eq_of_undated (h : r.undated = r'.undated) : r.status = r'.status :=
  show r.undated.status = r'.undated.status from congrArg JobRecord.status h

end JobRecord

namespace Store

variable {s own : Store} {id : String} {r : JobRecord}

/-- The second store holds the record of a job as the first one does, but for the moment of its
completion, and of all rows those of the job. -/
structure Mirrors (id : String) (s own : Store) : Prop where
  record : (s.record? id).map JobRecord.undated = (own.record? id).map JobRecord.undated
  rows : own.rows = s.rowsFor id

/-- What the store holds about one job. -/
def only (s : Store) (id : String) : Store where
  records := s.records.filter fun r => r.id = id
  rows := s.rowsFor id

theorem mirrors_only (s : Store) (id : String) : s.Mirrors id (s.only id) where
  record := by
    simp [record?, only, List.find?_filter]
  rows := rfl

/-- Two answers that both grant, with stores of which the second mirrors the first, or both refuse. -/
inductive Agree (id : String) : Except JobError Store → Except JobError Store → Prop
  | granted {s own : Store} : s.Mirrors id own → Agree id (.ok s) (.ok own)
  | refused (e e' : JobError) : Agree id (.error e) (.error e')

/-- Two stores agree when what the first one grants the second one grants too, and the other way
round. -/
theorem Agree.of_iff {x y : Except JobError Store}
    (hxy : ∀ s, x = .ok s → ∃ own, y = .ok own ∧ s.Mirrors id own)
    (hyx : ∀ own, y = .ok own → ∃ s, x = .ok s) : Agree id x y := by
  cases x with
  | ok s =>
    obtain ⟨own, rfl, h⟩ := hxy s rfl
    exact .granted h
  | error e =>
    cases y with
    | ok own =>
      obtain ⟨s, hs⟩ := hyx own rfl
      cases hs
    | error e' => exact .refused e e'

theorem Mirrors.record_eq_none (h : s.Mirrors id own) (hr : s.record? id = none) :
    own.record? id = none := by
  have hrecord := h.record
  rwa [hr, Option.map_none, eq_comm, Option.map_eq_none_iff] at hrecord

theorem Mirrors.record_own (h : s.Mirrors id own) (hr : s.record? id = some r) :
    ∃ r', own.record? id = some r' ∧ r.undated = r'.undated := by
  have hrecord := h.record
  rw [hr, Option.map_some, eq_comm, Option.map_eq_some_iff] at hrecord
  obtain ⟨r', hr', hsame⟩ := hrecord
  exact ⟨r', hr', hsame.symm⟩

theorem Mirrors.record_shared (h : s.Mirrors id own) (hr : own.record? id = some r) :
    ∃ r', s.record? id = some r' ∧ r'.undated = r.undated := by
  have hrecord := h.record
  rw [hr, Option.map_some, Option.map_eq_some_iff] at hrecord
  exact hrecord

/-! ### Operations -/

/-- Changes that come to the same but for the moment of completion. -/
theorem Mirrors.update {f g : JobRecord → JobRecord} (h : s.Mirrors id own)
    (hf : ∀ r, (f r).id = r.id) (hg : ∀ r, (g r).id = r.id)
    (hfg : ∀ r r', r.undated = r'.undated → (f r).undated = (g r').undated) :
    (s.update id f).Mirrors id (own.update id g) where
  record := by
    cases hr : s.record? id with
    | none =>
      rw [record?_update_eq_map hf, record?_update_eq_map hg, hr, h.record_eq_none hr]
      rfl
    | some r =>
      obtain ⟨r', hr', hsame⟩ := h.record_own hr
      rw [record?_update hf hr, record?_update hg hr', Option.map_some, Option.map_some,
        hfg r r' hsame]
  rows := h.rows

/-- Two operations agree that change mirroring stores in the same way, on conditions on the stage of the
job that come to the same. -/
theorem Mirrors.agree {s₁ own₁ : Store} {x y : Except JobError Store} {f g : JobRecord → JobRecord}
    {P Q : JobStatus → Prop} (h : s.Mirrors id own) (h₁ : s₁.Mirrors id own₁)
    (hx : ∀ t, x = .ok t ↔ ∃ r, s.record? id = some r ∧ P r.status ∧ t = s₁.update id f)
    (hy : ∀ t, y = .ok t ↔ ∃ r, own.record? id = some r ∧ Q r.status ∧ t = own₁.update id g)
    (hPQ : ∀ r, own.record? id = some r → (P r.status ↔ Q r.status))
    (hf : ∀ r, (f r).id = r.id) (hg : ∀ r, (g r).id = r.id)
    (hfg : ∀ r r', r.undated = r'.undated → (f r).undated = (g r').undated) : Agree id x y := by
  refine .of_iff ?_ ?_
  · intro t ht
    obtain ⟨r, hr, hP, rfl⟩ := (hx t).mp ht
    obtain ⟨r', hr', hsame⟩ := h.record_own hr
    rw [JobRecord.status_eq_of_undated hsame] at hP
    exact ⟨_, (hy _).mpr ⟨r', hr', (hPQ r' hr').mp hP, rfl⟩, h₁.update hf hg hfg⟩
  · intro t ht
    obtain ⟨r', hr', hQ, -⟩ := (hy t).mp ht
    obtain ⟨r, hr, hsame⟩ := h.record_shared hr'
    have hP : P r.status := by
      rw [JobRecord.status_eq_of_undated hsame]
      exact (hPQ r' hr').mpr hQ
    exact ⟨_, (hx _).mpr ⟨r, hr, hP, rfl⟩⟩

theorem Mirrors.transition (h : s.Mirrors id own) (target : JobStatus) :
    Agree id (s.transition id target) (own.transition id target) := by
  let move : JobRecord → JobRecord := fun r => { r with status := target }
  refine h.agree (f := move) (g := move) (P := fun a => a.canMoveTo target)
    (Q := fun a => a.canMoveTo target) h (fun _ => transition_eq_ok_iff)
    (fun _ => transition_eq_ok_iff) (fun _ _ => Iff.rfl) (fun _ => rfl) (fun _ => rfl) ?_
  intro r r' hsame
  exact congrArg move hsame

theorem Mirrors.setLanguages (h : s.Mirrors id own) (languages : List String) :
    Agree id (s.setLanguages id languages) (own.setLanguages id languages) := by
  let label : JobRecord → JobRecord := fun r => { r with languages := languages }
  refine h.agree (f := label) (g := label) (P := fun _ => True) (Q := fun _ => True) h
    (fun _ => by simp [setLanguages_eq_ok_iff, label]) (fun _ => by simp [setLanguages_eq_ok_iff, label])
    (fun _ _ => Iff.rfl) (fun _ => rfl) (fun _ => rfl) ?_
  intro r r' hsame
  exact congrArg label hsame

theorem Mirrors.fail (h : s.Mirrors id own) (now now' : Moment) (error : String) :
    Agree id (s.fail now id error) (own.fail now' id error) := by
  let explain : Moment → JobRecord → JobRecord := fun now r =>
    { r with status := .failed, error := some error, completed := some now.asUniversal }
  refine h.agree (f := explain now) (g := explain now') (P := fun a => a.canMoveTo .failed)
    (Q := fun a => a.canMoveTo .failed) h (fun _ => fail_eq_ok_iff) (fun _ => fail_eq_ok_iff)
    (fun _ _ => Iff.rfl) (fun _ => rfl) (fun _ => rfl) ?_
  intro r r' hsame
  show (explain now r.undated).undated = (explain now r'.undated).undated
  rw [hsame]

/-- Rows that the store can take, the store of the job alone can take as well. -/
theorem Mirrors.insertable (h : s.Mirrors id own) {rows : List FindingRow}
    (hs : s.Insertable rows) : own.Insertable rows := by
  refine ⟨hs.1, ?_⟩
  intro x hx y hy
  rw [h.rows] at hy
  exact hs.2 x hx y (List.mem_of_mem_filter hy)

/-- Rows of the job that are added to both stores. -/
theorem Mirrors.addRows (h : s.Mirrors id own) (findings : List Finding) :
    Mirrors id { s with rows := s.rows ++ rowsOf id findings }
      { own with rows := own.rows ++ rowsOf id findings } where
  record := h.record
  rows := by rw [rowsFor_append_rowsOf, h.rows]

/-- A completion that the store of the job alone grants is granted by both when its rows can be added to
both. -/
theorem Mirrors.complete (h : s.Mirrors id own) (now now' : Moment) {findings : List Finding}
    {stats : Option ReviewStats}
    (hfree : ∀ own', own.complete now' id findings stats = .ok own' →
      s.Insertable (rowsOf id findings)) :
    Agree id (s.complete now id findings stats) (own.complete now' id findings stats) := by
  let finish : Moment → JobRecord → JobRecord := fun now r =>
    { r with status := .completed, stats := stats, completed := some now.asUniversal }
  refine h.agree (f := finish now) (g := finish now')
    (P := fun a => a.canMoveTo .completed ∧ findings.all holdsLine ∧
      s.Insertable (rowsOf id findings))
    (Q := fun a => a.canMoveTo .completed ∧ findings.all holdsLine ∧
      own.Insertable (rowsOf id findings)) (h.addRows findings)
    (fun _ => ?_) (fun _ => ?_) ?_ (fun _ => rfl) (fun _ => rfl) ?_
  · simp only [complete_eq_ok_iff, and_assoc]
    rfl
  · simp only [complete_eq_ok_iff, and_assoc]
    rfl
  · intro r hr
    constructor
    · intro ⟨hmove, hlines, hinsertable⟩
      exact ⟨hmove, hlines, h.insertable hinsertable⟩
    · intro ⟨hmove, hlines, hinsertable⟩
      exact ⟨hmove, hlines, hfree _ (complete_eq_ok_iff.mpr ⟨r, hr, hmove, hlines, hinsertable, rfl⟩)⟩
  · intro r r' hsame
    show (finish now r.undated).undated = (finish now r'.undated).undated
    rw [hsame]

/-! ### Reading -/

theorem Mirrors.findingsOf (h : s.Mirrors id own) : own.findingsOf id = s.findingsOf id := by
  have hall : own.rows.filter (fun x => x.job = id) = s.rows.filter fun x => x.job = id := by
    rw [h.rows, rowsFor, List.filter_filter]
    simp only [Bool.and_self]
  rw [Store.findingsOf, Store.findingsOf, hall]

/-- The job is read back the same from both stores. -/
theorem Mirrors.get (h : s.Mirrors id own) :
    (s.get id).map Job.undated = (own.get id).map Job.undated := by
  rw [Store.get, Store.get]
  cases hr : s.record? id with
  | none => rw [h.record_eq_none hr]
  | some r =>
    obtain ⟨r', hr', hsame⟩ := h.record_own hr
    have hid : r.id = id := id_of_record? hr
    have hid' : r'.id = id := id_of_record? hr'
    rw [hr']
    show Except.ok { s.toJob r.undated with findings := s.findingsOf r.id } =
      Except.ok { own.toJob r'.undated with findings := own.findingsOf r'.id }
    rw [hid, hid', h.findingsOf, hsame]
    rfl

end Store

end RepoAudit
