import RepoAudit.Execution.Attempt

/-!
# No execution leaves its process behind

An execution can go wrong at every step: the start may fail, the deadline may pass, the signal may fire,
and each wait for the process may fail, those for a killed process too. However these fall together, what
comes out is decided by the first turn that decides anything, and then the process is gone. Only the last
wait for a killed process may keep the execution from coming to an outcome; that it comes back is an
assumption, which is named, since it waits for the pipes of the process and not for the process alone.

* `HasExited` — when a process has come to its end, by what was done about it;
* `Collecting.ComesBack`, `Watch.ComesBack` — the last wait for a killed process comes back;
* `Collecting.stop_cases`, `Watch.abandon_cases` — how a stop and the way out of a failed wait can go;
* `Watch.Explains` — what an outcome tells of the turn that decided it, and of the process;
* `Watch.explains_conclude` — every turn that decides something is explained by its outcome;
* `attempt_accounted` — **an execution that starts a process ends with the process exited or killed, for
  the reason that its outcome gives; otherwise nothing is started**;
* `bind_ended_attempt` — where no wait for a killed process fails or stays away, this is the execution that
  is run.
-/

namespace RepoAudit.Execution

variable {program : String} {limit : Duration} {deadline : Decimal} {a : Attempt} {deeds : List Deed}
  {w : Watch} {message : String}

/-- When a process has come to its end, by what was done about it: its end was collected, or it was
killed, since the system lets no killed process live. -/
inductive HasExited (deeds : List Deed) : Prop
  | collected (h : .reaped ∈ deeds)
  | killed (h : .groupKilled ∈ deeds)

/-! ### Stopping -/

/-- A wait for a killed process fails with a message. -/
def Collecting.Fails (c : Collecting) (message : String) : Prop :=
  c.soon = .broke message ∨ c.soon = .running ∧ c.late = some (.error message)

/-- If there is a last wait for a killed process, it comes back: nobody holds the pipes for ever. -/
def Collecting.ComesBack (c : Collecting) : Prop := c.soon = .running → c.late.isSome = true

/-- The process is killed with its group in any case, and its end is collected unless a wait fails or
does not come back. -/
theorem Collecting.stop_cases (c : Collecting) :
    (∃ out deeds, c.stop = (some (.ok out), deeds) ∧ (∀ m, ¬ c.Fails m) ∧ .groupKilled ∈ deeds ∧
        .reaped ∈ deeds) ∨
      (∃ m deeds, c.stop = (some (.error m), deeds) ∧ c.Fails m ∧ .groupKilled ∈ deeds) ∨
      ∃ deeds, c.stop = (none, deeds) ∧ ¬ c.ComesBack ∧ .groupKilled ∈ deeds := by
  cases hsoon : c.soon with
  | exited code out err =>
    exact .inl ⟨out, [.groupKilled, .reaped], by simp [stop, hsoon], by simp [Fails, hsoon],
      by simp, by simp⟩
  | broke m => exact .inr (.inl ⟨m, [.groupKilled], by simp [stop, hsoon], .inl hsoon, by simp⟩)
  | running =>
    rcases hlate : c.late with _ | m | out
    · exact .inr (.inr ⟨[.groupKilled, .killed], by simp [stop, hsoon, hlate],
        by simp [ComesBack, hsoon, hlate], by simp⟩)
    · exact .inr (.inl ⟨m, [.groupKilled, .killed], by simp [stop, hsoon, hlate],
        .inr ⟨hsoon, hlate⟩, by simp⟩)
    · exact .inl ⟨out, [.groupKilled, .killed, .reaped], by simp [stop, hsoon, hlate],
        by simp [Fails, hsoon, hlate], by simp, by simp⟩

/-! ### One turn -/

namespace Watch

/-- A wait for the process fails with a message: that of the turn, one of a stop, or one on the way
out. -/
def Fails (w : Watch) (message : String) : Prop :=
  w.sight = .broke message ∨ w.stopping.Fails message ∨ w.clearing.Fails message

/-- The last waits for the killed process come back, that of a stop and that on the way out. -/
def ComesBack (w : Watch) : Prop := w.stopping.ComesBack ∧ w.clearing.ComesBack

/-- A turn that decides nothing: in time, without a signal, and the program goes on. -/
def IsUndecided (deadline : Decimal) (w : Watch) : Prop :=
  deadline.le w.clock = false ∧ w.fired = false ∧ w.sight = .running

/-- What an outcome tells of the turn that decided it and of what was done. A result is that of a program
that ended by itself, with all that it wrote; a passed deadline and a fired signal are there, and the
process was killed with its group and its end collected; any other failure is that of a wait, and only
one on the way out can keep the end of the killed process from being collected. There is no outcome only
if a last wait does not come back, for a process that was killed with its group. -/
def Explains (program : String) (limit : Duration) (deadline : Decimal) (w : Watch)
    (deeds : List Deed) : Option (Except Failure Finished) → Prop
  | none => ¬ w.ComesBack ∧ .groupKilled ∈ deeds
  | some (.ok f) => deadline.le w.clock = false ∧ w.fired = false ∧ deeds = [.reaped] ∧
      ∃ code out err, w.sight = .exited code out err ∧
        f = ⟨program, code, Text.Utf8.textOf out, Text.Utf8.textOf err⟩
  | some (.error (.timedOut p l _)) => deadline.le w.clock = true ∧ p = program ∧ l = limit ∧
      .groupKilled ∈ deeds ∧ .reaped ∈ deeds
  | some (.error (.cancelled p started _)) => w.fired = true ∧ p = program ∧ started = true ∧
      .groupKilled ∈ deeds ∧ .reaped ∈ deeds
  | some (.error (.crashed m)) => w.Fails m ∧
      (.reaped ∈ deeds ∨ .groupKilled ∈ deeds ∧ w.clearing.Fails m)
  | some (.error (.system _)) => False

theorem Explains.hasExited {outcome : Option (Except Failure Finished)}
    (h : w.Explains program limit deadline deeds outcome) : HasExited deeds := by
  rcases outcome with _ | failure | f
  · exact .killed h.2
  · cases failure with
    | timedOut p l written => exact .killed h.2.2.2.1
    | cancelled p started written => exact .killed h.2.2.2.1
    | crashed m =>
      rcases h.2 with hreaped | ⟨hkilled, -⟩
      · exact .collected hreaped
      · exact .killed hkilled
    | system e => exact h.elim
  · obtain ⟨-, -, rfl, -⟩ := h
    exact .collected (.head _)

theorem Explains.isSome {outcome : Option (Except Failure Finished)}
    (h : w.Explains program limit deadline deeds outcome) (hcomes : w.ComesBack) :
    outcome.isSome = true := by
  cases outcome with
  | none => exact absurd hcomes h.1
  | some outcome => rfl

/-- After a failed wait the process is found at its end or killed, and a failure is passed on: that of
the wait, or that of a wait for the killed process; or such a wait does not come back. -/
theorem abandon_cases (w : Watch) (message : String) :
    (∃ m, (w.abandon message).outcome = some (.error (.crashed m)) ∧
        (m = message ∨ w.clearing.Fails m) ∧
        (.reaped ∈ (w.abandon message).deeds ∨
          .groupKilled ∈ (w.abandon message).deeds ∧ w.clearing.Fails m)) ∨
      (w.abandon message).outcome = none ∧ ¬ w.clearing.ComesBack ∧
        .groupKilled ∈ (w.abandon message).deeds := by
  rw [abandon]
  by_cases hended : w.ended = true
  · rw [if_pos hended]
    exact .inl ⟨message, rfl, .inl rfl, .inl (.head _)⟩
  rw [if_neg hended]
  rcases w.clearing.stop_cases with ⟨out, deeds, hstop, -, -, hreaped⟩ |
    ⟨m, deeds, hstop, hfails, hkilled⟩ | ⟨deeds, hstop, hback, hkilled⟩
  · rw [hstop]
    exact .inl ⟨message, rfl, .inl rfl, .inl hreaped⟩
  · rw [hstop]
    exact .inl ⟨m, rfl, .inr hfails, .inr ⟨hkilled, hfails⟩⟩
  · rw [hstop]
    exact .inr ⟨rfl, hback, hkilled⟩

/-- The failure that is passed on is explained, whatever was done before the way out. -/
theorem explains_abandon (h : w.Fails message) (hsub : (w.abandon message).deeds ⊆ deeds) :
    w.Explains program limit deadline deeds (w.abandon message).outcome := by
  rcases w.abandon_cases message with ⟨m, houtcome, hm, hdeeds⟩ | ⟨houtcome, hback, hkilled⟩
  · rw [houtcome]
    refine ⟨?_, hdeeds.imp (fun hreaped => hsub hreaped) fun hkilled => ⟨hsub hkilled.1, hkilled.2⟩⟩
    rcases hm with rfl | hclearing
    · exact h
    · exact .inr (.inr hclearing)
  · rw [houtcome]
    exact ⟨fun hcomes => hback hcomes.2, hsub hkilled⟩

/-- A stop ends for its reason with the process killed and its end collected, or on the way out of a
failed wait; or its last wait does not come back. -/
theorem explains_cutShort {reason : String → Failure}
    (h : ∀ written deeds, .groupKilled ∈ deeds → .reaped ∈ deeds →
      w.Explains program limit deadline deeds (some (.error (reason written)))) :
    w.Explains program limit deadline (w.cutShort reason).deeds (w.cutShort reason).outcome := by
  rw [cutShort]
  rcases w.stopping.stop_cases with ⟨out, deeds, hstop, -, hkilled, hreaped⟩ |
    ⟨m, deeds, hstop, hfails, -⟩ | ⟨deeds, hstop, hback, hkilled⟩
  · rw [hstop]
    exact h _ _ hkilled hreaped
  · rw [hstop]
    exact explains_abandon (.inr (.inl hfails)) (List.subset_append_right _ _)
  · rw [hstop]
    exact ⟨fun hcomes => hback hcomes.1, hkilled⟩

theorem conclude_eq_none_iff :
    w.conclude program limit deadline = none ↔ w.IsUndecided deadline := by
  rw [conclude, IsUndecided]
  by_cases hpassed : deadline.le w.clock = true
  · simp [hpassed]
  by_cases hfired : w.fired = true
  · simp [hpassed, hfired]
  cases w.sight with
  | exited code out err => simp [hpassed, hfired]
  | running => simp [hpassed, hfired]
  | broke m => simp [hpassed, hfired]

/-- A turn that decides something is explained by the outcome. -/
theorem explains_conclude (h : w.conclude program limit deadline = some a) :
    w.Explains program limit deadline a.deeds a.outcome := by
  rw [conclude] at h
  split at h
  next hpassed =>
    obtain rfl := Option.some.inj h
    exact explains_cutShort fun written deeds hkilled hreaped => ⟨hpassed, rfl, rfl, hkilled, hreaped⟩
  next hpassed =>
  rw [Bool.not_eq_true] at hpassed
  split at h
  next hfired =>
    obtain rfl := Option.some.inj h
    exact explains_cutShort fun written deeds hkilled hreaped => ⟨hfired, rfl, rfl, hkilled, hreaped⟩
  next hfired =>
  rw [Bool.not_eq_true] at hfired
  split at h
  next code out err hsight =>
    obtain rfl := Option.some.inj h
    exact ⟨hpassed, hfired, rfl, code, out, err, hsight, rfl⟩
  next => cases h
  next m hsight =>
    obtain rfl := Option.some.inj h
    exact explains_abandon (.inl hsight) (List.Subset.refl _)

end Watch

/-! ### The whole -/

section

variable (program : String) (limit : Duration)

theorem attempt_of_fired (start : Except Fault (Decimal × List Watch)) :
    attempt program limit true start = some ⟨some (.error (.cancelled program false "")), []⟩ := rfl

theorem attempt_of_not_isCountable (h : limit.isCountable = false)
    (start : Except Fault (Decimal × List Watch)) :
    attempt program limit false start = some ⟨some (.error (.crashed overflowText)), []⟩ := by
  simp [attempt, h]

theorem attempt_error (h : limit.isCountable = true) (e : Fault) :
    attempt program limit false (.error e) = some ⟨some (.error e.failure), []⟩ := by
  simp [attempt, h]

theorem attempt_ok (h : limit.isCountable = true) (clock : Decimal) (ws : List Watch) :
    attempt program limit false (.ok (clock, ws)) =
      (ws.findSome? (Watch.conclude program limit (clock.add limit.seconds))).map fun a =>
        ⟨a.outcome, .started :: a.deeds⟩ := by
  simp [attempt, h]

end

/-- **No execution leaves its process behind.** An execution goes on only as long as no turn decides
anything. If it ends, then either nothing was started, because the signal had fired before, there is no
deadline for the limit, or the start failed; or the outcome is explained by the first turn that decided
something, and the process has exited. As far as the last waits for a killed process come back, there is
an outcome. -/
theorem attempt_accounted (program : String) (limit : Duration) (firedBefore : Bool)
    (start : Except Fault (Decimal × List Watch)) :
    (attempt program limit firedBefore start = none ↔
      firedBefore = false ∧ limit.isCountable = true ∧ ∃ clock ws, start = .ok (clock, ws) ∧
        ∀ w ∈ ws, w.IsUndecided (clock.add limit.seconds)) ∧
    ∀ a, attempt program limit firedBefore start = some a →
      (a.deeds = [] ∧
        (firedBefore = true ∧ a.outcome = some (.error (.cancelled program false "")) ∨
          firedBefore = false ∧ limit.isCountable = false ∧
            a.outcome = some (.error (.crashed overflowText)) ∨
          firedBefore = false ∧ ∃ e, start = .error e ∧ a.outcome = some (.error e.failure))) ∨
      firedBefore = false ∧ ∃ clock before w after deeds, start = .ok (clock, before ++ w :: after) ∧
        (∀ u ∈ before, u.IsUndecided (clock.add limit.seconds)) ∧ a.deeds = .started :: deeds ∧
        w.Explains program limit (clock.add limit.seconds) deeds a.outcome ∧ HasExited deeds ∧
        (w.ComesBack → a.outcome.isSome = true) := by
  cases hbefore : firedBefore with
  | true =>
    rw [attempt_of_fired]
    simp
  | false =>
    cases hcountable : limit.isCountable with
    | false =>
      rw [attempt_of_not_isCountable program limit hcountable]
      simp
    | true =>
      cases start with
      | error e =>
        rw [attempt_error program limit hcountable]
        simp
      | ok x =>
        obtain ⟨clock, ws⟩ := x
        rw [attempt_ok program limit hcountable]
        constructor
        · simp only [Option.map_eq_none_iff, List.findSome?_eq_none_iff, Watch.conclude_eq_none_iff]
          refine ⟨fun h => ⟨trivial, trivial, clock, ws, rfl, h⟩, ?_⟩
          rintro ⟨-, -, _, _, heq, h⟩
          cases heq
          exact h
        · intro a ha
          obtain ⟨b, hb, rfl⟩ := Option.map_eq_some_iff.mp ha
          obtain ⟨before, w, after, rfl, hdecides, hundecided⟩ := List.findSome?_eq_some_iff.mp hb
          have hexplains := Watch.explains_conclude hdecides
          exact .inr ⟨rfl, clock, before, w, after, b.deeds, rfl,
            fun u hu => Watch.conclude_eq_none_iff.mp (hundecided u hu), rfl, hexplains,
            hexplains.hasExited, hexplains.isSome⟩

/-- A program that outlives its deadline and then the five seconds, and a wait for it that is interrupted:
it is killed three times before its end is collected, and the interruption is passed on. -/
theorem attempt_accounted_interrupted :
    let quick : Collecting := ⟨.exited (-9) [] [], none⟩
    let slow : Collecting := ⟨.running, some (.error "interrupted")⟩
    let ws : List Watch :=
      [⟨.ofInt 0, false, .running, quick, false, quick⟩, ⟨.ofInt 1, false, .running, slow, false, quick⟩]
    let deeds : List Deed := [.groupKilled, .killed, .groupKilled, .reaped]
    attempt "trivy" (.decimal (.ofInt 1)) false (.ok (.ofInt 0, ws)) =
        some ⟨some (.error (.crashed "interrupted")), .started :: deeds⟩ ∧
      (∀ w ∈ ws, w.ComesBack) ∧ HasExited deeds := by
  intro quick slow ws deeds
  have hattempt : attempt "trivy" (.decimal (.ofInt 1)) false (.ok (.ofInt 0, ws)) =
      some ⟨some (.error (.crashed "interrupted")), .started :: deeds⟩ := by rfl
  have hcomes : ∀ w ∈ ws, w.ComesBack := by
    simp [ws, quick, slow, Watch.ComesBack, Collecting.ComesBack]
  rcases (attempt_accounted "trivy" (.decimal (.ofInt 1)) false (.ok (.ofInt 0, ws))).2 _ hattempt with
    ⟨hnothing, -⟩ | ⟨-, -, -, -, -, left, -, -, hdeeds, -, hexited, -⟩
  · cases hnothing
  · obtain ⟨-, rfl⟩ := List.cons.inj hdeeds
    exact ⟨hattempt, hcomes, hexited⟩

/-! ### The execution that is run -/

/-- A turn in which each wait for a killed process comes back and none would fail, and in which a process
whose wait fails is still there. -/
def Watch.IsCalm (w : Watch) : Prop :=
  w.ComesBack ∧ (∀ m, ¬ w.stopping.Fails m) ∧
    ∀ message, w.sight = .broke message → w.ended = false ∧ ∀ m, ¬ w.clearing.Fails m

/-- What is seen of a turn when only its end counts. -/
def Watch.turn (w : Watch) : Turn where
  clock := w.clock
  fired := w.fired
  written := (w.stopping.stop.1.bind Except.toOption).getD []
  sight := w.sight

/-- What became of the process, once there is an outcome. -/
def Attempt.ended? (a : Attempt) : Option Ended :=
  a.outcome.map fun outcome => {
    outcome
    process :=
      if .started ∉ a.deeds then .neverStarted
      else if .groupKilled ∈ a.deeds then .killed
      else .exited }

namespace Watch

theorem ended_cutShort (h : w.IsCalm) (reason : String → Failure) :
    Attempt.ended? ⟨(w.cutShort reason).outcome, .started :: (w.cutShort reason).deeds⟩ =
      some ⟨.error (reason (excerpt w.turn.written)), .killed⟩ := by
  rw [cutShort, turn]
  rcases w.stopping.stop_cases with ⟨out, deeds, hstop, -, hkilled, -⟩ | ⟨m, deeds, -, hfails, -⟩ |
    ⟨deeds, -, hback, -⟩
  · simp [hstop, Attempt.ended?, hkilled, Except.toOption]
  · exact absurd hfails (h.2.1 m)
  · exact absurd h.1.1 hback

theorem ended_abandon (h : w.IsCalm) (hsight : w.sight = .broke message) :
    Attempt.ended? ⟨(w.abandon message).outcome, .started :: (w.abandon message).deeds⟩ =
      some ⟨.error (.crashed message), .killed⟩ := by
  obtain ⟨hended, hclearing⟩ := h.2.2 message hsight
  rw [abandon, hended, if_neg Bool.false_ne_true]
  rcases w.clearing.stop_cases with ⟨out, deeds, hstop, -, hkilled, -⟩ | ⟨m, deeds, -, hfails, -⟩ |
    ⟨deeds, -, hback, -⟩
  · simp [hstop, Attempt.ended?, hkilled]
  · exact absurd hfails (hclearing m)
  · exact absurd h.1.2 hback

/-- A turn decides the same when only its end counts. -/
theorem supervise_cons_turn (h : w.IsCalm) (rest : List Turn) :
    supervise program limit deadline (w.turn :: rest) =
      (w.conclude program limit deadline).elim (supervise program limit deadline rest) fun a =>
        Attempt.ended? ⟨a.outcome, .started :: a.deeds⟩ := by
  have hseen : w.turn.clock = w.clock ∧ w.turn.fired = w.fired ∧ w.turn.sight = w.sight :=
    ⟨rfl, rfl, rfl⟩
  rw [supervise, conclude, hseen.1, hseen.2.1, hseen.2.2]
  by_cases hpassed : deadline.le w.clock = true
  · rw [if_pos hpassed, if_pos hpassed, Option.elim_some, ended_cutShort h]
  rw [if_neg hpassed, if_neg hpassed]
  by_cases hfired : w.fired = true
  · rw [if_pos hfired, if_pos hfired, Option.elim_some, ended_cutShort h]
  rw [if_neg hfired, if_neg hfired]
  cases hsight : w.sight with
  | exited code out err => rfl
  | running => rfl
  | broke m =>
    dsimp only
    rw [Option.elim_some, ended_abandon h hsight]

end Watch

theorem supervise_map_turn {ws : List Watch} (h : ∀ w ∈ ws, w.IsCalm) :
    supervise program limit deadline (ws.map Watch.turn) =
      (ws.findSome? (Watch.conclude program limit deadline)).bind fun a =>
        Attempt.ended? ⟨a.outcome, .started :: a.deeds⟩ := by
  induction ws with
  | nil => rfl
  | cons w rest ih =>
    rw [List.forall_mem_cons] at h
    rw [List.map_cons, Watch.supervise_cons_turn h.1, ih h.2, List.findSome?_cons]
    cases w.conclude program limit deadline with
    | none => rfl
    | some a => rfl

/-- As long as each wait for a killed process comes back and none fails, an attempt is the execution of
its turns. -/
theorem bind_ended_attempt (program : String) (limit : Duration) (firedBefore : Bool)
    {start : Except Fault (Decimal × List Watch)}
    (h : ∀ clock ws, start = .ok (clock, ws) → ∀ w ∈ ws, w.IsCalm) :
    (attempt program limit firedBefore start).bind Attempt.ended? =
      execute program limit firedBefore
        ((start.mapError Fault.failure).map fun (clock, ws) => (clock, ws.map Watch.turn)) := by
  cases firedBefore with
  | true => rfl
  | false =>
    cases hcountable : limit.isCountable with
    | false =>
      rw [attempt_of_not_isCountable program limit hcountable]
      simp [execute, hcountable, Attempt.ended?]
    | true =>
      cases start with
      | error e =>
        rw [attempt_error program limit hcountable]
        show _ = execute program limit false (.error e.failure)
        simp [execute, hcountable, Attempt.ended?]
      | ok x =>
        obtain ⟨clock, ws⟩ := x
        rw [attempt_ok program limit hcountable, Option.bind_map]
        show _ = execute program limit false (.ok (clock, ws.map Watch.turn))
        simp [execute, hcountable, supervise_map_turn (h clock ws rfl), Function.comp_def]

end RepoAudit.Execution
