import RepoAudit.Proofs.Crew.Schedule
import RepoAudit.Proofs.Limiter.Charge

/-!
# What a step does to a member

A step moves one member at most, and all that it does to that member depends on its task, its signal
and its post. What is shown of the members of a crew is shown by going through these moves.

* `Crew.Moved` — what may become of a member, with what lies outside afterwards;
* `Crew.Step.moved` — **a step moves nobody, or one member in one of these ways**;
* `Crew.signal_run` — a signal that has fired stays so;
* `Crew.Sound.member_run`, `Crew.Reachable.member_at` — what every move of a member keeps, holds of it
  throughout;
* `Crew.Kept`, `Crew.Moved.known` — what is kept by the work of a task is kept by every move.
-/

namespace RepoAudit

open Relation

namespace Room

variable {r r' : Room} {s : String}

/-- A signal that has fired stays so, whatever happens in the room. -/
theorem Step.fired (hstep : Step r r') (h : (r.tokens s).fired = true) :
    (r'.tokens s).fired = true := by
  cases hstep with
  | arrive w _ => exact (r.fired_arrive w s).trans h
  | ringFor n => rw [tokens_ringFor]; exact h
  | enter n expired =>
    rw [Room.enter]
    split
    · exact h
    · rw [tokens_look]; exact h
  | examine n expired =>
    rw [Room.examine]
    split
    · exact h
    · rw [tokens_look]; exact h
  | expire n =>
    rw [Room.expire]
    split
    · exact h
    · split <;> exact h
  | leave n => exact (r.fired_leave n s).trans h
  | tryTake => exact h
  | release number _ => rw [tokens_releaseWaking]; exact h
  | fire s' => rw [fired_fire]; split <;> [rfl; exact h]
  | ring s' => rw [tokens_ring]; exact h

end Room

namespace Crew

variable {σ τ α : Type} {plan : Plan σ τ α} {l : Limiter} {tasks : List (Task τ α)}
  {c c' : Crew σ τ α} {i : Nat} {m : Member τ α} {outside : σ}

/-! ### Signals -/

theorem isFired_signal {team : Nat} : (c.signal plan team).isFired = true ↔
    ∃ s, (plan.teams team).signal = some s ∧ (c.room.tokens s).fired = true := by
  rw [signal]
  cases hname : (plan.teams team).signal with
  | none => simp [Signal.isFired]
  | some s => cases hfired : (c.room.tokens s).fired <;> simp [Signal.isFired, hfired]

/-- A signal that has fired stays so. -/
theorem signal_step (hstep : Step plan c c') (h : c.Sound plan l tasks) {team : Nat}
    (hfired : (c.signal plan team).isFired = true) : (c'.signal plan team).isFired = true := by
  obtain ⟨s, hname, hs⟩ := isFired_signal.mp hfired
  have hkeeps : ∀ room, ReflTransGen Room.Step c.room room → (room.tokens s).fired = true := by
    intro room hrun
    induction hrun with
    | refl => exact hs
    | tail _ hstep ih => exact hstep.fired ih
  exact isFired_signal.mpr ⟨s, hname, hkeeps _ (hstep.room_steps h)⟩

theorem signal_run (hrun : ReflTransGen (Step plan) c c') (h : c.Sound plan l tasks) {team : Nat}
    (hfired : (c.signal plan team).isFired = true) : (c'.signal plan team).isFired = true := by
  induction hrun with
  | refl => exact hfired
  | tail hbefore hstep ih => exact signal_step hstep (h.run hbefore) ih

/-! ### What may become of a member -/

/-- Whether a team passes its tasks over from now on. -/
def PassesOver (plan : Plan σ τ α) (c : Crew σ τ α) (team : Nat) : Prop :=
  (plan.teams team).watchful = true ∧ (c.signal plan team).isFired = true

/-- What may become of a member: its next post, and what lies outside then. -/
inductive Moved (plan : Plan σ τ α) (c : Crew σ τ α) (m : Member τ α) : Post τ α → σ → Prop
  | passOver (hpost : m.post = .waiting) (hpassed : PassesOver plan c m.task.team) :
      Moved plan c m (.done false m.task.skipped) c.outside
  | settle {x : α} (hpost : m.post = .waiting) (hgoes : ¬ PassesOver plan c m.task.team)
      (hopening : m.task.opening = .settled x) : Moved plan c m (.done false x) c.outside
  | begin {t : τ} (hpost : m.post = .waiting) (hgoes : ¬ PassesOver plan c m.task.team)
      (hopening : m.task.opening = .free t) : Moved plan c m (.working false t) c.outside
  | ask {refused : α} {t : τ} (hpost : m.post = .waiting) (hgoes : ¬ PassesOver plan c m.task.team)
      (hopening : m.task.opening = .held refused t) : Moved plan c m (.asking refused t) c.outside
  | stay {refused : α} {t : τ} (hpost : m.post = .asking refused t) :
      Moved plan c m (.asking refused t) c.outside
  | grant {refused : α} {t : τ} (hpost : m.post = .asking refused t)
      (hquiet : (c.signal plan m.task.team).isFired = false) :
      Moved plan c m (.admitted t) c.outside
  | refuse {refused : α} {t : τ} (hpost : m.post = .asking refused t)
      (hfired : (c.signal plan m.task.team).isFired = true) :
      Moved plan c m (.turnedAway refused) c.outside
  | getThrough {t : τ} (hpost : m.post = .admitted t) : Moved plan c m (.working true t) c.outside
  | giveUp {refused : α} (hpost : m.post = .turnedAway refused) :
      Moved plan c m (.done false refused) c.outside
  | work {held : Bool} {t : τ} (hpost : m.post = .working held t)
      (hgoing : plan.work.outcome t = none) :
      Moved plan c m (.working held (plan.work.step t (c.signal plan m.task.team) c.outside).1.1)
        (plan.work.step t (c.signal plan m.task.team) c.outside).2
  | complete {held : Bool} {t : τ} {x : α} (hpost : m.post = .working held t)
      (houtcome : plan.work.outcome t = some x) :
      Moved plan c m (if held then .ended x else .done false x) c.outside
  | giveBack {x : α} (hpost : m.post = .ended x) : Moved plan c m (.done true x) c.outside

/-- A caller with the signal of a team is cancelled exactly if that has fired. -/
theorem isCancelled_eq {w : Waiter} {team : Nat} (h : w.signal = (plan.teams team).signal) :
    c.room.isCancelled w = (c.signal plan team).isFired := by
  rw [Room.isCancelled, h, signal]
  cases (plan.teams team).signal with
  | none => rfl
  | some s => cases hfired : (c.room.tokens s).fired <;> simp [hfired, Signal.isFired]

/-- A look of a member is decided by its signal and by the slots alone, since it has no time limit. -/
theorem Sound.decision_cases (h : c.Sound plan l tasks) {w : Waiter}
    (hm : c.members[w.number]? = some m) (hw : w ∈ c.room.waiters) :
    c.room.decision w false = some (.error .cancelled) ∧
        (c.signal plan m.task.team).isFired = true ∨
      c.room.decision w false = some (.ok ()) ∧ (c.signal plan m.task.team).isFired = false ∨
      c.room.decision w false = none := by
  have hcard := h.waiter_eq hm hw
  have hlimit : w.limit = none := congrArg Waiter.limit hcard
  have hcancelled := isCancelled_eq (c := c) (congrArg Waiter.signal hcard)
  rcases Room.decision_cases c.room w false with
    ⟨hdecision, hfired⟩ | ⟨hdecision, hquiet, -⟩ | ⟨t, hdecision, -⟩ | ⟨hdecision, -, -⟩
  · exact .inl ⟨hdecision, hcancelled ▸ hfired⟩
  · exact .inr (.inl ⟨hdecision, hcancelled ▸ hquiet⟩)
  · rw [Room.decision, hlimit] at hdecision
    split at hdecision
    · cases hdecision
    · split at hdecision <;> cases hdecision
  · exact .inr (.inr hdecision)

theorem members_notice (c : Crew σ τ α) (name : Option String) (signal : Signal) :
    (c.notice name signal).members = c.members := by
  cases name with
  | none => rfl
  | some s =>
    rw [notice]
    split <;> rfl

theorem outside_notice (c : Crew σ τ α) (name : Option String) (signal : Signal) :
    (c.notice name signal).outside = c.outside := by
  cases name with
  | none => rfl
  | some s =>
    rw [notice]
    split <;> rfl

/-- One member has moved, and nobody else. -/
def MovedAt (plan : Plan σ τ α) (c c' : Crew σ τ α) : Prop :=
  ∃ i m p, c.members[i]? = some m ∧ Moved plan c m p c'.outside ∧
    c'.members = (c.put i m p).members

theorem Move.moved (hmove : Move plan c c') (h : c.Sound plan l tasks) :
    c'.members = c.members ∧ c'.outside = c.outside ∨ MovedAt plan c c' := by
  cases hmove with
  | @takeUp i m hm hpost _ =>
    refine .inr ?_
    rw [Crew.takeUp]
    split
    · next hpassed => exact ⟨i, m, _, hm, .passOver hpost (by simpa [PassesOver] using hpassed), rfl⟩
    · next hgoes =>
      have hgoes' : ¬ PassesOver plan c m.task.team := fun h => hgoes (by simp [h.1, h.2])
      split
      · next hopening => exact ⟨i, m, _, hm, .settle hpost hgoes' hopening, rfl⟩
      · next hopening => exact ⟨i, m, _, hm, .begin hpost hgoes' hopening, rfl⟩
      · next hopening => exact ⟨i, m, _, hm, .ask hpost hgoes' hopening, rfl⟩
  | ringFor _ => exact .inl ⟨rfl, rfl⟩
  | @look i m refused t w room hm hpost hlooks =>
    obtain ⟨hw, rfl, -⟩ := hlooks.mem
    refine .inr ⟨w.number, m, .decided refused t (c.room.decision w false), hm, ?_, rfl⟩
    rcases h.decision_cases hm hw with ⟨hdecision, hfired⟩ | ⟨hdecision, hquiet⟩ | hdecision
    · rw [hdecision]
      exact .refuse hpost hfired
    · rw [hdecision]
      exact .grant hpost hquiet
    · rw [hdecision]
      exact .stay hpost
  | getThrough hm hpost _ => exact .inr ⟨_, _, _, hm, .getThrough hpost, rfl⟩
  | giveUp hm hpost _ => exact .inr ⟨_, _, _, hm, .giveUp hpost, rfl⟩
  | @work i m held t hm hpost hgoing =>
    refine .inr ⟨i, m, _, hm, ?_, members_notice ..⟩
    rw [Crew.work, outside_notice]
    exact .work hpost hgoing
  | complete hm hpost houtcome => exact .inr ⟨_, _, _, hm, .complete hpost houtcome, rfl⟩
  | giveBack hm hpost _ => exact .inr ⟨_, _, _, hm, .giveBack hpost, rfl⟩
  | ring _ => exact .inl ⟨rfl, rfl⟩

/-- **A step moves nobody, or one member in one of these ways.** -/
theorem Step.moved (hstep : Step plan c c') (h : c.Sound plan l tasks) :
    c'.members = c.members ∧ c'.outside = c.outside ∨ MovedAt plan c c' := by
  cases hstep with
  | move hmove => exact hmove.moved h
  | fire _ _ _ => exact .inl ⟨rfl, rfl⟩

/-- What every move of a member keeps, holds of it as long as the schedule goes on. -/
theorem Sound.member_run {P : Member τ α → Prop} (h : c.Sound plan l tasks)
    (hrun : ReflTransGen (Step plan) c c')
    (hkeeps : ∀ d, ReflTransGen (Step plan) c d → ∀ m p outside, d.members[i]? = some m →
      Moved plan d m p outside → P m → P (m.turn p))
    (hm : c.members[i]? = some m) (hP : P m) :
    ∃ m', c'.members[i]? = some m' ∧ m'.task = m.task ∧ P m' := by
  induction hrun with
  | refl => exact ⟨m, hm, rfl, hP⟩
  | @tail d c' hbefore hstep ih =>
    obtain ⟨m', hm', htask, hP'⟩ := ih
    rcases hstep.moved (h.run hbefore) with ⟨hmembers, -⟩ | ⟨j, v, p, hv, hmoved, hmembers⟩
    · exact ⟨m', hmembers ▸ hm', htask, hP'⟩
    · rw [hmembers]
      by_cases hj : j = i
      · subst hj
        obtain rfl := Option.some.inj (hv.symm.trans hm')
        refine ⟨v.turn p, by rw [getElem?_put hv, if_pos rfl], htask, ?_⟩
        exact hkeeps d hbefore v p _ hv hmoved hP'
      · exact ⟨m', by rw [getElem?_put hv, if_neg hj, hm'], htask, hP'⟩

/-- What holds of every task that waits, and is kept by every move of its member, holds throughout. -/
theorem Reachable.member_at {P : Nat → Member τ α → Prop} (h : Reachable plan l tasks outside c)
    (hwaits : ∀ i task, tasks[i]? = some task → P i { task := task })
    (hkeeps : ∀ d, Reachable plan l tasks outside d → ∀ i m p outside, d.members[i]? = some m →
      Moved plan d m p outside → P i m → P i (m.turn p))
    (hm : c.members[i]? = some m) : P i m := by
  have hlength : i < tasks.length := by
    rw [← h.sound.tasks, List.length_map]
    exact (List.getElem?_eq_some_iff.mp hm).1
  have hstart : (start l tasks outside).members[i]? = some { task := tasks[i] } := by
    rw [start, List.getElem?_map, List.getElem?_eq_getElem hlength]
    rfl
  obtain ⟨m', hm', -, hP⟩ := (sound_start plan l tasks outside).member_run (P := P i) h
    (fun d hd => hkeeps d hd i) hstart (hwaits i _ (List.getElem?_eq_getElem hlength))
  obtain rfl := Option.some.inj (hm'.symm.trans hm)
  exact hP

/-! ### What holds of every task from its beginning on -/

/-- What is known of a task through all its posts: of the work that is left to do, with or without a
slot, and of what the task comes to. -/
def Known (doing : Bool → τ → Prop) (good : Bool → α → Prop) : Post τ α → Prop
  | .waiting => True
  | .asking refused t => good false refused ∧ doing true t
  | .admitted t => doing true t
  | .turnedAway refused => good false refused
  | .working held t => doing held t
  | .ended x => good true x
  | .done held x => good held x

/-- What holds of the beginning of a task, and is kept by every step of its work. -/
structure Kept (plan : Plan σ τ α) (task : Task τ α) (doing : Bool → τ → Prop)
    (good : Bool → α → Prop) : Prop where
  skipped : good false task.skipped
  settled : ∀ {x}, task.opening = .settled x → good false x
  free : ∀ {t}, task.opening = .free t → doing false t
  held : ∀ {refused t}, task.opening = .held refused t → good false refused ∧ doing true t
  step : ∀ {held t}, doing held t → plan.work.outcome t = none → ∀ signal outside,
    doing held (plan.work.step t signal outside).1.1
  outcome : ∀ {held t x}, doing held t → plan.work.outcome t = some x → good held x

/-- What is kept by the work of a task is kept by every move of its member. -/
theorem Moved.known {doing : Bool → τ → Prop} {good : Bool → α → Prop} {p : Post τ α}
    (hmoved : Moved plan c m p outside) (hkept : Kept plan m.task doing good)
    (h : Known doing good m.post) : Known doing good p := by
  cases hmoved with
  | passOver _ _ => exact hkept.skipped
  | settle _ _ hopening => exact hkept.settled hopening
  | begin _ _ hopening => exact hkept.free hopening
  | ask _ _ hopening => exact hkept.held hopening
  | stay hpost => rwa [hpost] at h
  | grant hpost _ => rw [hpost] at h; exact h.2
  | refuse hpost _ => rw [hpost] at h; exact h.1
  | getThrough hpost => rw [hpost] at h; exact h
  | giveUp hpost => rw [hpost] at h; exact h
  | work hpost hgoing => rw [hpost] at h; exact hkept.step h hgoing _ _
  | @complete held t x hpost houtcome =>
    rw [hpost] at h
    have hgood := hkept.outcome h houtcome
    cases held <;> exact hgood
  | giveBack hpost => rw [hpost] at h; exact h

/-- A member that asks for a slot has a task that needs one. -/
theorem Reachable.opening_of_asking (h : Reachable plan l tasks outside c) (hm : m ∈ c.members)
    {refused : α} {t : τ} (hpost : m.post = .asking refused t) :
    m.task.opening = .held refused t := by
  obtain ⟨i, hi⟩ := List.mem_iff_getElem?.mp hm
  refine h.member_at (P := fun _ m => ∀ {refused t}, m.post = .asking refused t →
    m.task.opening = .held refused t) (fun _ _ _ => nofun) ?_ hi hpost
  intro d _ _ m p outside _ hmoved hasks refused t hnext
  cases hmoved with
  | ask _ _ hopening => cases hnext; exact hopening
  | stay hpost => cases hnext; exact hasks hpost
  | @complete held _ _ _ _ => cases held <;> cases hnext
  | _ => cases hnext

end Crew

end RepoAudit
