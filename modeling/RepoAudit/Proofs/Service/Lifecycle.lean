import RepoAudit.Proofs.Service.Run

/-!
# Where a job stands

The point of a pipeline says at which stage its job stands in the store, so that every request of
the pipeline is granted, and the requests that were granted form one ascending chain.

* `World.Stands` — what store and notices say of a job at a stage;
* `Point.Admits` — the stages at which a pipeline may be at a point;
* `World.Follows` — the job of a pipeline stands where the pipeline says, or has ended with it;
* `Config.FaultyMove.follows` — **every move keeps it so**, whatever the stages answer, whenever the
  signal fires, and also when a completion is rolled back.
-/

namespace RepoAudit

open Relation

variable {σ : Type}

/-- A record has an error exactly when it has failed, and the error says something. -/
def JobRecord.ErrorFits (r : JobRecord) : Prop :=
  (r.status ≠ .failed → r.error = none) ∧ (r.status = .failed → ∃ e, r.error = some e ∧ e ≠ "")

namespace World

variable {w w' : World σ} {id : String} {a b : JobStatus} {now : Moment}

/-- What store and notices say of a job at a stage: its record has the stage and the error that goes
with it, only a completed job has rows, and the granted requests lead from the first stage to this
one. -/
structure Stands (w : World σ) (id : String) (a : JobStatus) : Prop where
  record : ∃ r, w.store.record? id = some r ∧ r.status = a ∧ r.ErrorFits
  rows : a ≠ .completed → w.store.rowsFor id = []
  chain : (w.history id).IsChain fun a b => a.canMoveTo b
  first : (w.history id).head? = some .pending
  last : (w.history id).getLast? = some a

theorem Stands.meanwhile (h : w.Stands id a) (hm : w.Meanwhile id w') : w'.Stands id a where
  record := by rw [hm.record]; exact h.record
  rows := by rw [hm.rows]; exact h.rows
  chain := by rw [hm.history]; exact h.chain
  first := by rw [hm.history]; exact h.first
  last := by rw [hm.history]; exact h.last

theorem Stands.refused (h : w.Stands id a) (status : JobStatus) (e : JobError) :
    (w.tell id status (.error e)).2.Stands id a :=
  h.meanwhile (meanwhile_notice w _ (by simp))

/-- A permitted move that is granted. -/
theorem Stands.granted {store : Store} (h : w.Stands id a) (hmove : a.canMoveTo b)
    (hrecord : ∃ r, store.record? id = some r ∧ r.status = b ∧ r.ErrorFits)
    (hrows : b ≠ .completed → store.rowsFor id = []) : (w.tell id b (.ok store)).2.Stands id b := by
  have hhistory : (w.tell id b (.ok store)).2.history id = w.history id ++ [b] := by
    have happend := history_append { w with store := store } ⟨id, b, true⟩ id
    rw [if_pos ⟨rfl, rfl⟩] at happend
    exact happend
  refine ⟨hrecord, hrows, ?_, ?_, ?_⟩
  · rw [hhistory, List.isChain_append]
    refine ⟨h.chain, by simp, fun x hx y hy => ?_⟩
    rw [h.last] at hx
    cases hx
    cases hy
    exact hmove
  · rw [hhistory, List.head?_append, h.first]
    rfl
  · rw [hhistory, List.getLast?_append]
    rfl

/-- A job may be moved to a later stage that is not the last. -/
theorem Stands.transition (h : w.Stands id a) (hmove : a.canMoveTo b) (hb : b.isTerminal = false) :
    ∃ store, w.store.transition id b = .ok store ∧ (w.tell id b (.ok store)).2.Stands id b := by
  obtain ⟨r, hr, rfl, hfits⟩ := h.record
  have hrecord := Store.record?_update (f := fun r => { r with status := b }) (fun _ => rfl) hr
  refine ⟨_, Store.transition_eq_ok_iff.mpr ⟨r, hr, hmove, rfl⟩, h.granted hmove ?_ fun _ => ?_⟩
  · refine ⟨_, hrecord, rfl, fun _ => hfits.1 ?_, ?_⟩
    · intro hfailed
      rw [hfailed] at hmove
      exact absurd hmove (by simp [JobStatus.canMoveTo, JobStatus.isTerminal])
    · rintro rfl
      exact absurd hb (by decide)
  · refine h.rows ?_
    intro hcompleted
    rw [hcompleted] at hmove
    exact absurd hmove (by simp [JobStatus.canMoveTo, JobStatus.isTerminal])

/-- A job that has not ended may be ended with an error. -/
theorem Stands.fail {message : String} (h : w.Stands id a) (ha : a.isTerminal = false)
    (hmessage : message ≠ "") (now : Moment) :
    ∃ store, w.store.fail now id message = .ok store ∧
      (w.tell id .failed (.ok store)).2.Stands id .failed := by
  obtain ⟨r, hr, rfl, hfits⟩ := h.record
  have hmove : r.status.canMoveTo .failed := JobStatus.canMoveTo_of_isTerminal ha rfl
  have hrecord := Store.record?_update (f := fun r => { r with
    status := .failed, error := some message, completed := some now.asUniversal }) (fun _ => rfl) hr
  refine ⟨_, Store.fail_eq_ok_iff.mpr ⟨r, hr, hmove, rfl⟩, h.granted hmove ?_ fun _ => ?_⟩
  · exact ⟨_, hrecord, rfl, fun hne => absurd rfl hne, fun _ => ⟨message, rfl, hmessage⟩⟩
  · refine h.rows ?_
    rintro hcompleted
    rw [hcompleted] at ha
    exact absurd ha (by decide)

/-- A completion that is granted. -/
theorem Stands.complete {store : Store} {findings : List Finding} {stats : Option ReviewStats}
    (h : w.Stands id a) (hok : w.store.complete now id findings stats = .ok store) :
    (w.tell id .completed (.ok store)).2.Stands id .completed := by
  obtain ⟨r, hr, rfl, hfits⟩ := h.record
  obtain ⟨r', hr', hmove, -, -, rfl⟩ := Store.complete_eq_ok_iff.mp hok
  cases hr.symm.trans hr'
  have hrecord := Store.record?_update (s := { w.store with
    rows := w.store.rows ++ Store.rowsOf id findings }) (f := fun r => { r with
      status := .completed, stats := stats, completed := some now.asUniversal }) (fun _ => rfl) hr
  refine h.granted hmove ⟨_, hrecord, rfl, fun _ => hfits.1 ?_, ?_⟩ fun hne => absurd rfl hne
  · intro hfailed
    rw [hfailed] at hmove
    exact absurd hmove (by simp [JobStatus.canMoveTo, JobStatus.isTerminal])
  · simp

theorem Stands.setLanguages (h : w.Stands id a) (languages : List String) :
    ∃ store, w.store.setLanguages id languages = .ok store ∧
      World.Stands { w with store := store } id a := by
  obtain ⟨r, hr, rfl, hfits⟩ := h.record
  have hrecord := Store.record?_update (f := fun r => { r with languages := languages })
    (fun _ => rfl) hr
  exact ⟨_, Store.setLanguages_eq_ok_iff.mpr ⟨r, hr, rfl⟩,
    ⟨_, hrecord, rfl, hfits⟩, h.rows, h.chain, h.first, h.last⟩

end World

/-! ### The stage at a point -/

/-- The stages at which a pipeline may be at a point, and that what it is about to report says
something. -/
def Point.Admits : Point → JobStatus → Prop
  | .load, a | .checkLoaded _, a | .markCloning _, a => a = .pending
  | .fetch _, a | .checkFetched, a | .markScanning, a => a = .cloning
  | .checkUnfetched message, a => a = .cloning ∧ message ≠ ""
  | .detect, a | .saveLanguages _, a | .scan _, a => a = .scanning
  | .checkScanned _, a | .markReviewing _, a => a = .scanning
  | .review _, a | .checkReviewed .., a => a = .reviewing
  | .complete .., a => a = .scanning ∨ a = .reviewing
  | .report message, a | .giveUp message, a => a.isTerminal = false ∧ message ≠ ""
  | .cleanUp, a | .forget, a | .leave, a => a.isTerminal = true

/-- The job of a pipeline stands where the pipeline says; without a pipeline it has ended. -/
def World.Follows (w : World σ) (id : String) : Option Pipeline → Prop
  | none => ∃ a, a.isTerminal = true ∧ w.Stands id a
  | some p => p.job = id ∧ ∃ a, p.point.Admits a ∧ w.Stands id a

namespace Pipeline

variable {s : Stages σ} {w w' : World σ} {id : String} {p : Pipeline} {a : JobStatus}

theorem cancelledText_ne : cancelledText ≠ "" := by decide

theorem defectText_ne : defectText ≠ "" := by decide

theorem append_ne_empty {x : String} (y : String) (h : x ≠ "") : x ++ y ≠ "" := by
  simp [h]

theorem follows_giveUp {message : String} (hw : w.Stands p.job a) (ha : a.isTerminal = false)
    (hmessage : message ≠ "") : w.Follows p.job (some (p.goTo (.giveUp message))) :=
  ⟨rfl, a, ⟨ha, hmessage⟩, hw⟩

/-- After a look at the signal the pipeline goes on or gives up. -/
theorem follows_unlessFired {next : Point} (hw : w.Stands p.job a) (ha : a.isTerminal = false)
    (hnext : next.Admits a) : w.Follows p.job (some (unlessFired w p next)) := by
  rw [unlessFired]
  split
  · exact follows_giveUp hw ha cancelledText_ne
  · exact ⟨rfl, a, hnext, hw⟩

theorem step_follows (s : Stages σ) (now : Moment) (h : w.Follows id (some p)) :
    (p.step s now w).1.Follows id (p.step s now w).2 := by
  obtain ⟨rfl, a, hadmits, hw⟩ := h
  obtain ⟨job, serial, path, point⟩ := p
  have hworked : ∀ {α : Type} (work : Setting σ → α × Setting σ),
      (w.during job work).2.Stands job a :=
    fun work => hw.meanwhile (World.meanwhile_during w job job work)
  cases point with
  | load =>
    cases hadmits
    simp only [step]
    split
    · exact ⟨rfl, _, rfl, hw⟩
    · exact follows_giveUp hw rfl defectText_ne
  | checkLoaded address =>
    cases hadmits
    exact follows_unlessFired hw rfl rfl
  | markCloning address =>
    cases hadmits
    obtain ⟨store, hgranted, hstands⟩ := hw.transition (b := .cloning) rfl rfl
    simp only [step, hgranted]
    exact ⟨rfl, _, rfl, hstands⟩
  | fetch address =>
    cases hadmits
    simp only [step]
    split
    · exact ⟨rfl, _, rfl, hworked _⟩
    · exact ⟨rfl, _, ⟨rfl, append_ne_empty _ (by decide)⟩, hworked _⟩
    · exact follows_giveUp (hworked _) rfl defectText_ne
  | checkUnfetched message =>
    obtain ⟨rfl, hmessage⟩ := hadmits
    exact follows_unlessFired hw rfl ⟨rfl, hmessage⟩
  | checkFetched =>
    cases hadmits
    exact follows_unlessFired hw rfl rfl
  | markScanning =>
    cases hadmits
    obtain ⟨store, hgranted, hstands⟩ := hw.transition (b := .scanning) rfl rfl
    simp only [step, hgranted]
    exact ⟨rfl, _, rfl, hstands⟩
  | detect =>
    cases hadmits
    simp only [step]
    split
    · exact ⟨rfl, _, rfl, hworked _⟩
    · exact ⟨rfl, _, ⟨rfl, append_ne_empty _ (by decide)⟩, hworked _⟩
    · exact follows_giveUp (hworked _) rfl defectText_ne
  | saveLanguages languages =>
    cases hadmits
    obtain ⟨store, hgranted, hstands⟩ := hw.setLanguages (languages.map Language.name)
    simp only [step, hgranted]
    exact ⟨rfl, _, rfl, hstands⟩
  | scan languages =>
    cases hadmits
    exact ⟨rfl, _, rfl, hworked _⟩
  | checkScanned results =>
    cases hadmits
    refine follows_unlessFired hw rfl ?_
    rw [afterScan]
    split
    · exact .inl rfl
    · exact rfl
  | markReviewing findings =>
    cases hadmits
    obtain ⟨store, hgranted, hstands⟩ := hw.transition (b := .reviewing) rfl rfl
    simp only [step, hgranted]
    exact ⟨rfl, _, rfl, hstands⟩
  | review findings =>
    cases hadmits
    simp only [step]
    split
    · exact ⟨rfl, _, .inr rfl, hw⟩
    · split
      · exact ⟨rfl, _, rfl, hworked _⟩
      · exact follows_giveUp (hworked _) rfl defectText_ne
  | checkReviewed findings stats =>
    cases hadmits
    exact follows_unlessFired hw rfl (.inr rfl)
  | complete findings stats =>
    have ha : a.isTerminal = false := by rcases hadmits with rfl | rfl <;> rfl
    simp only [step]
    cases hcomplete : w.store.complete now job findings stats with
    | ok store => exact ⟨rfl, .completed, rfl, hw.complete hcomplete⟩
    | error e => exact follows_giveUp (hw.refused .completed e) ha defectText_ne
  | report message =>
    obtain ⟨store, hgranted, hstands⟩ := hw.fail hadmits.1 hadmits.2 now
    simp only [step, hgranted]
    exact ⟨rfl, .failed, rfl, hstands⟩
  | giveUp message =>
    obtain ⟨store, hgranted, hstands⟩ := hw.fail hadmits.1 hadmits.2 now
    simp only [step, hgranted]
    exact ⟨rfl, .failed, rfl, hstands⟩
  | cleanUp =>
    refine ⟨rfl, a, hadmits, hw.meanwhile ?_⟩
    simp only [step]
    split
    · exact .refl w job
    · exact World.meanwhile_outside w job w.limiter (s.cleanUp path w.outside)
  | forget => exact ⟨rfl, a, hadmits, hw.record, hw.rows, hw.chain, hw.first, hw.last⟩
  | leave => exact ⟨a, hadmits, hw⟩

theorem Advance.follows {q : Option Pipeline} (hadvance : p.Advance s w w' q)
    (h : w.Follows id (some p)) : w'.Follows id q := by
  cases hadvance with
  | step now => exact step_follows s now h
  | rolledBack e findings stats hpoint =>
    obtain ⟨rfl, a, hadmits, hw⟩ := h
    rw [hpoint] at hadmits
    have ha : a.isTerminal = false := by rcases hadmits with rfl | rfl <;> rfl
    exact follows_giveUp (hw.refused .completed e) ha defectText_ne

end Pipeline

/-- **Every move leaves the job where its pipeline says.** -/
theorem Config.FaultyMove.follows {s : Stages σ} {id : String} {c c' : Config σ}
    (hmove : Config.FaultyMove s id c c') (h : c.world.Follows id c.pipeline) :
    c'.world.Follows id c'.pipeline := by
  cases hmove with
  | advance hadvance => exact (Pipeline.advance_recording_iff.mp hadvance).1.follows h
  | @meanwhile w w' q log hm =>
    cases q with
    | none =>
      obtain ⟨a, ha, hw⟩ := h
      exact ⟨a, ha, hw.meanwhile hm⟩
    | some p =>
      obtain ⟨hjob, a, hadmits, hw⟩ := h
      exact ⟨hjob, a, hadmits, hw.meanwhile hm⟩

end RepoAudit
