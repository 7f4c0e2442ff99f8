import RepoAudit.Proofs.Crew.Scanning
import RepoAudit.Proofs.Crew.Slots

/-!
# The order of the names is a schedule

A runner that goes through its names one after the other follows a schedule of its team: each scanner
is taken up when nobody else is at work, gets through to a slot at once, does all its work, and gives
the slot back before the next one is taken up.

* `Environment.KeepsSignals` — a signal that has fired stays so, and without one none fires;
* `Crew.run_to_done`, `Crew.run_of_held` — a member that nobody disturbs does its work, and comes to a
  slot or is refused one;
* `Runner.IsNext.dealt` — the scanner of the next name is dealt with as the runner deals with it;
* `Runner.exists_schedule` — **what a runner comes to is what some schedule of its team comes to**.
-/

namespace RepoAudit

open Relation

variable {σ τ α : Type}

/-- Answering a request may let a signal fire, and does nothing else to it. -/
def Environment.KeepsSignals (env : Environment σ) : Prop :=
  ∀ q signal outside, (env.answer q signal outside).1.2 = signal ∨
    signal = .quiet ∧ (env.answer q signal outside).1.2 = .fired

theorem Environment.keepsSignals_here : here.KeepsSignals := by
  intro q signal outside
  refine .inl ?_
  cases q with
  | run inv => simp only [answer, here]
  | readBack path => rfl
  | discard path => rfl

theorem Environment.keepsSignals_container (name : String) : (container name).KeepsSignals := by
  intro q signal outside
  refine .inl ?_
  cases q with
  | run inv => simp only [answer, container]
  | readBack path => simp only [answer]
  | discard path => simp only [answer]

namespace Room

variable {r : Room} {w : Waiter} {n : Nat} {s : String}

theorem waiters_arrive (r : Room) (w : Waiter) :
    (r.arrive w).waiters =
      r.waiters ++ [w.turn (if r.isCancelled w then .ringing else .arriving)] := by
  cases hsignal : w.signal with
  | none => simp [arrive, isCancelled, hsignal]
  | some s =>
    rw [arrive_of_signal hsignal]
    cases hfired : (r.tokens s).fired <;> simp [isCancelled, hsignal, Token.register, hfired]

theorem alarms_arrive (r : Room) (w : Waiter) : (r.arrive w).alarms = r.alarms := by
  rw [arrive]
  split <;> rfl

theorem alarms_ringFor (r : Room) (n : Nat) : (r.ringFor n).alarms = r.alarms := by
  rw [ringFor]
  split <;> rfl

theorem alarms_leave (r : Room) (n : Nat) : (r.leave n).alarms = r.alarms := by
  rw [leave]
  split
  · rfl
  · split <;> rfl

theorem alarms_releaseWaking (r : Room) (number : Option Nat) :
    (r.releaseWaking number).alarms = r.alarms := by
  rw [releaseWaking]
  split
  · rfl
  · cases number with
    | none => rfl
    | some n =>
      simp only [wake]
      split <;> rfl

theorem Looks.alarms {r' : Room} (h : r.Looks n w r') : r'.alarms = r.alarms := by
  cases h with
  | first hstanding =>
    rw [enter, hstanding]
    exact alarms_look ..
  | again hstanding =>
    rw [examine, hstanding]
    exact alarms_look ..

/-- A caller that is alone and rings its alarm has come then. -/
theorem standing_ringFor (hwaiters : r.waiters = [w.turn .ringing]) :
    r.standing w.number .ringing = some (w.turn .ringing) ∧
      (r.ringFor w.number).standing w.number .arriving = some (w.turn .arriving) := by
  have hstanding : r.standing w.number .ringing = some (w.turn .ringing) := by
    simp [standing, hwaiters]
  have halert : r.alert.waiters = [w.turn .ringing] := by
    simp [alert, hwaiters, Waiter.woken]
  refine ⟨hstanding, ?_⟩
  rw [ringFor, hstanding]
  simp [standing, Room.put, halert]
  rfl

/-- Where nobody calls, a signal that fires has no alarm to ring. -/
theorem alarms_fire (h : r.Sound) (hwaiters : r.waiters = []) (s : String) :
    (r.fire s).alarms = r.alarms := by
  cases hfired : (r.tokens s).fired with
  | true => simp [fire, Token.fire_of_fired hfired]
  | false =>
    have hnone : (r.tokens s).callbacks = [] := by
      have hregistered := h.registered s hfired
      rw [hwaiters] at hregistered
      exact List.length_eq_zero_iff.mp hregistered
    simp [fire, Token.fire_of_quiet hfired, hnone]

end Room

namespace Crew

variable {plan : Plan σ τ α} {l : Limiter} {tasks : List (Task τ α)} {c : Crew σ τ α} {i : Nat}
  {m : Member τ α} {t : τ} {refused : α}

/-- Whether no member calls for a slot, and no alarm is to ring. -/
structure Resting (c : Crew σ τ α) : Prop where
  idle : ∀ m ∈ c.members, m.post.leaves? = none
  alarms : c.room.alarms = []

theorem Sound.waiters_eq_nil (h : c.Sound plan l tasks) (hresting : c.Resting) :
    c.room.waiters = [] := by
  refine List.eq_nil_iff_forall_not_mem.mpr fun w hw => ?_
  obtain ⟨j, m, leaves, hm, hleaves, -⟩ :=
    (h.callers w.card).mp (Room.mem_roll.mpr ⟨w, hw, rfl⟩)
  rw [hresting.idle m (List.mem_of_getElem? hm)] at hleaves
  cases hleaves

theorem Resting.put (h : c.Resting) {c' : Crew σ τ α} {p : Post τ α} (hp : p.leaves? = none)
    (hmembers : c'.members = (c.put i m p).members) (halarms : c'.room.alarms = []) : c'.Resting where
  idle m' hm' := by
    rw [hmembers] at hm'
    rcases List.mem_or_eq_of_mem_set hm' with hold | rfl
    · exact h.idle m' hold
    · exact hp
  alarms := halarms

/-- A member that moves twice. -/
theorem members_put_put {c' : Crew σ τ α} {p : Post τ α}
    (hmembers : c'.members = (c.put i m p).members) (q : Post τ α) :
    (c'.put i (m.turn p) q).members = (c.put i m q).members := by
  rw [members_put, hmembers, members_put, List.set_set]
  rfl

theorem signal_of_fired {c' : Crew σ τ α} (h : ∀ s, (c'.room.tokens s).fired = (c.room.tokens s).fired)
    (team : Nat) : c'.signal plan team = c.signal plan team := by
  simp only [signal, h]

/-- The signal of a team is what its work has seen. -/
theorem signal_notice {team : Nat} {signal : Signal}
    (h : signal = c.signal plan team ∨ c.signal plan team = .quiet ∧ signal = .fired) :
    (c.notice (plan.teams team).signal signal).signal plan team = signal := by
  cases hname : (plan.teams team).signal with
  | none =>
    have habsent : c.signal plan team = .absent := by simp [Crew.signal, hname]
    rcases h with h | ⟨h, -⟩
    · rw [h]
      rfl
    · rw [habsent] at h
      cases h
  | some s =>
    rw [notice]
    cases hfired : signal.isFired with
    | true =>
      have hsignal : signal = .fired := by simpa [Signal.isFired] using hfired
      simp [Crew.signal, hname, within, Room.fired_fire, hsignal]
    | false =>
      rcases h with h | ⟨-, h⟩
      · simp [h]
      · rw [h] at hfired
        cases hfired

/-! ### A member that nobody disturbs -/

/-- A member does all its work. -/
theorem run_of_working {plan : Plan σ (Procedure α) α} {tasks : List (Task (Procedure α) α)}
    {env : Environment σ} {m : Member (Procedure α) α} {held : Bool} {p : Procedure α}
    (hwork : plan.work = .scanning env) (hkeeps : env.KeepsSignals) {c : Crew σ (Procedure α) α}
    (h : c.Sound plan l tasks) (hm : c.members[i]? = some m) (hpost : m.post = .working held p)
    (hresting : c.Resting) :
    let done := p.perform env (c.signal plan m.task.team) c.outside
    ∃ c', ReflTransGen (Step plan) c c' ∧
      c'.members = (c.put i m (if held then .ended done.1.1 else .done false done.1.1)).members ∧
      c'.Resting ∧ c'.signal plan m.task.team = done.1.2 ∧ c'.outside = done.2 := by
  induction p generalizing c m with
  | done x =>
    have houtcome : plan.work.outcome (.done x) = some x := by rw [hwork]; rfl
    refine ⟨c.complete i m held x, .single (.move (.complete hm hpost houtcome)), rfl, ?_, rfl, rfl⟩
    refine hresting.put (p := if held then .ended x else .done false x) ?_ rfl hresting.alarms
    cases held <;> rfl
  | ask q next ih =>
    have houtcome : plan.work.outcome (.ask q next) = none := by rw [hwork]; rfl
    have hnext : plan.work.step (.ask q next) (c.signal plan m.task.team) c.outside =
        ((next (env.answer q (c.signal plan m.task.team) c.outside).1.1,
          (env.answer q (c.signal plan m.task.team) c.outside).1.2),
          (env.answer q (c.signal plan m.task.team) c.outside).2) := by rw [hwork]; rfl
    have hmove : Move plan c (c.work plan i m held (.ask q next)) := .work hm hpost houtcome
    have hsound := hmove.sound h
    generalize hd : c.work plan i m held (.ask q next) = d at hmove hsound
    simp only [work, hnext] at hd
    have hmembers : d.members = (c.put i m (.working held (next
        (env.answer q (c.signal plan m.task.team) c.outside).1.1))).members := by
      rw [← hd, members_notice]
    have houtside : d.outside = (env.answer q (c.signal plan m.task.team) c.outside).2 := by
      rw [← hd, outside_notice]
    have hsignal : d.signal plan m.task.team =
        (env.answer q (c.signal plan m.task.team) c.outside).1.2 := by
      rw [← hd]
      exact signal_notice (hkeeps q _ _)
    have halarms : d.room.alarms = [] := by
      rw [← hd]
      rcases room_notice _ _ _ with hroom | ⟨s, hroom⟩
      · rw [hroom]
        exact hresting.alarms
      · rw [hroom]
        exact (Room.alarms_fire h.room (h.waiters_eq_nil hresting) s).trans hresting.alarms
    have hmember : d.members[i]? = some (m.turn (.working held (next
        (env.answer q (c.signal plan m.task.team) c.outside).1.1))) := by
      rw [hmembers, getElem?_put hm, if_pos rfl]
    obtain ⟨c', hrun, hmembers', hresting', hsignal', houtside'⟩ :=
      ih _ hsound hmember rfl (hresting.put rfl hmembers halarms)
    rw [Member.task_turn, hsignal, houtside] at hsignal' hmembers' houtside'
    exact ⟨c', .head (.move hmove) hrun, hmembers'.trans (members_put_put hmembers _), hresting',
      hsignal', houtside'⟩

/-- A member that has looked for the last time stands where it leaves. -/
theorem exists_leaving {w : Waiter} {p : Post τ α} (h : c.Sound plan l tasks)
    (hm : c.members[i]? = some m) (hpost : m.post = .asking refused t)
    (hstanding : c.room.standing i .arriving = some w)
    (hp : Post.decided refused t (c.room.decision w false) = p) (hleaves : p.leaves? = some true) :
    ∃ d v, Move plan c d ∧ d.members = (c.put i m p).members ∧ d.room = c.room.enter i false ∧
      d.outside = c.outside ∧ d.members[i]? = some (m.turn p) ∧
      d.room.standing i .leaving = some v := by
  subst hp
  have hlook : Move plan c ((c.look i m refused t w).within (c.room.enter i false)) :=
    .look hm hpost (.first hstanding)
  have hmember : ((c.look i m refused t w).within (c.room.enter i false)).members[i]? =
      some (m.turn (Post.decided refused t (c.room.decision w false))) :=
    (getElem?_put hm _ _).trans (if_pos rfl)
  obtain ⟨v, hv, hnumber, hposture⟩ := (hlook.sound h).exists_caller hmember hleaves
  have hthere := Room.exists_standing hv
  rw [hnumber, hposture.mpr rfl] at hthere
  obtain ⟨u, hu⟩ := hthere
  exact ⟨_, u, hlook, rfl, rfl, rfl, hmember, hu⟩

/-- A member that has come and finds a slot takes it, unless its signal has fired. -/
theorem run_of_asking {w : Waiter} (h : c.Sound plan l tasks) (hm : c.members[i]? = some m)
    (hpost : m.post = .asking refused t) (hstanding : c.room.standing i .arriving = some w)
    (hfree : c.room.limiter.hasFree = true) :
    ∃ c', ReflTransGen (Step plan) c c' ∧
      c'.members = (c.put i m (if (c.signal plan m.task.team).isFired then .done false refused
        else .working true t)).members ∧
      c'.room.alarms = c.room.alarms ∧ (∀ team, c'.signal plan team = c.signal plan team) ∧
      c'.outside = c.outside := by
  obtain ⟨hw, rfl, -⟩ := Room.standing_eq_some hstanding
  have hlooks : c.room.Looks w.number w (c.room.enter w.number false) := .first hstanding
  have hcancelled : c.room.isCancelled w = (c.signal plan m.task.team).isFired :=
    isCancelled_eq (congrArg Waiter.signal (h.waiter_eq hm hw))
  have halarms : ((c.room.enter w.number false).leave w.number).alarms = c.room.alarms := by
    rw [Room.alarms_leave, hlooks.alarms]
  have hsignals : ∀ d : Crew σ τ α, d.room = (c.room.enter w.number false).leave w.number →
      ∀ team, d.signal plan team = c.signal plan team := fun d hd =>
    signal_of_fired fun s => by rw [hd, Room.fired_leave, hlooks.tokens]
  cases hsignal : (c.signal plan m.task.team).isFired with
  | true =>
    have hdecision : c.room.decision w false = some (.error .cancelled) := by
      simp [Room.decision, hcancelled, hsignal]
    obtain ⟨d, v, hmove, hmembers, hroom, houtside, hmember, hleaving⟩ :=
      exists_leaving h hm hpost hstanding (p := .turnedAway refused) (by rw [hdecision]; rfl) rfl
    have hroom' : (d.giveUp w.number (m.turn (.turnedAway refused)) refused).room =
        (c.room.enter w.number false).leave w.number := congrArg (Room.leave · w.number) hroom
    exact ⟨_, .tail (.single (.move hmove)) (.move (.giveUp hmember rfl hleaving)),
      members_put_put hmembers _, (congrArg Room.alarms hroom').trans halarms, hsignals _ hroom',
      houtside⟩
  | false =>
    have hdecision : c.room.decision w false = some (.ok ()) := by
      simp [Room.decision, hcancelled, hsignal, hfree]
    obtain ⟨d, v, hmove, hmembers, hroom, houtside, hmember, hleaving⟩ :=
      exists_leaving h hm hpost hstanding (p := .admitted t) (by rw [hdecision]; rfl) rfl
    have hroom' : (d.getThrough w.number (m.turn (.admitted t)) t).room =
        (c.room.enter w.number false).leave w.number := congrArg (Room.leave · w.number) hroom
    exact ⟨_, .tail (.single (.move hmove)) (.move (.getThrough hmember rfl hleaving)),
      members_put_put hmembers _, (congrArg Room.alarms hroom').trans halarms, hsignals _ hroom',
      houtside⟩

/-- A member does all its work and gives back the slot that it holds. -/
theorem run_to_done {plan : Plan σ (Procedure α) α} {tasks : List (Task (Procedure α) α)}
    {env : Environment σ} {m : Member (Procedure α) α} {held : Bool} {p : Procedure α}
    (hwork : plan.work = .scanning env) (hkeeps : env.KeepsSignals) {c : Crew σ (Procedure α) α}
    (h : c.Sound plan l tasks) (hm : c.members[i]? = some m) (hpost : m.post = .working held p)
    (hresting : c.Resting) :
    let done := p.perform env (c.signal plan m.task.team) c.outside
    ∃ c', ReflTransGen (Step plan) c c' ∧
      c'.members = (c.put i m (.done held done.1.1)).members ∧ c'.room.alarms = [] ∧
      c'.signal plan m.task.team = done.1.2 ∧ c'.outside = done.2 := by
  obtain ⟨c', hrun, hmembers, hresting', hsignal, houtside⟩ :=
    run_of_working hwork hkeeps h hm hpost hresting
  cases held with
  | false => exact ⟨c', hrun, hmembers, hresting'.alarms, hsignal, houtside⟩
  | true =>
    have hmember : c'.members[i]? = some (m.turn (.ended (p.perform env (c.signal plan m.task.team)
        c.outside).1.1)) := by
      rw [hmembers, getElem?_put hm, if_pos rfl]
      rfl
    have hnobody : c'.room.MayWake none := fun w hw => by
      rw [(h.run hrun).waiters_eq_nil hresting'] at hw
      cases hw
    refine ⟨_, .tail hrun (.move (.giveBack hmember rfl hnobody)), members_put_put hmembers _, ?_, ?_,
      houtside⟩
    · exact (Room.alarms_releaseWaking ..).trans hresting'.alarms
    · rw [← hsignal]
      exact signal_of_fired (fun s => congrArg Token.fired
        (congrFun (Room.tokens_releaseWaking ..) s)) _

theorem takeUp_of_goes (hgoes : ¬ PassesOver plan c m.task.team) (i : Nat) :
    c.takeUp plan i m = match m.task.opening with
      | .settled x => c.put i m (.done false x)
      | .free t => c.put i m (.working false t)
      | .held refused t => (c.put i m (.asking refused t)).within
          (c.room.arrive { number := i, signal := (plan.teams m.task.team).signal }) :=
  if_neg (by simpa [PassesOver] using hgoes)

/-- A caller that is alone rings its alarm if it has to, and has come then. -/
theorem exists_come {w : Waiter} {fired : Bool}
    (hwaiters : c.room.waiters = [w.turn (if fired then .ringing else .arriving)]) :
    ∃ c' v, ReflTransGen (Step plan) c c' ∧ c'.members = c.members ∧
      c'.room.standing w.number .arriving = some v ∧ c'.room.alarms = c.room.alarms ∧
      c'.room.limiter = c.room.limiter ∧ c'.room.tokens = c.room.tokens ∧ c'.outside = c.outside := by
  cases fired with
  | false =>
    refine ⟨c, w.turn .arriving, .refl, rfl, ?_, rfl, rfl, rfl, rfl⟩
    rw [Room.standing, hwaiters]
    simp
  | true =>
    obtain ⟨hringing, harriving⟩ := Room.standing_ringFor hwaiters
    exact ⟨c.within (c.room.ringFor w.number), _, .single (.move (.ringFor hringing)), rfl, harriving,
      Room.alarms_ringFor .., Room.limiter_ringFor .., Room.tokens_ringFor .., rfl⟩

/-- A member that needs a slot and finds one comes to it, unless its signal has fired. -/
theorem run_of_held (h : c.Sound plan l tasks) (hm : c.members[i]? = some m)
    (hpost : m.post = .waiting) (hopening : m.task.opening = .held refused t)
    (hturn : c.Turn plan i m) (hgoes : ¬ PassesOver plan c m.task.team) (hresting : c.Resting)
    (hfree : c.room.limiter.hasFree = true) :
    ∃ c', ReflTransGen (Step plan) c c' ∧
      c'.members = (c.put i m (if (c.signal plan m.task.team).isFired then .done false refused
        else .working true t)).members ∧
      c'.room.alarms = [] ∧ (∀ team, c'.signal plan team = c.signal plan team) ∧
      c'.outside = c.outside := by
  let w : Waiter := { number := i, signal := (plan.teams m.task.team).signal }
  let b := (c.put i m (.asking refused t)).within (c.room.arrive w)
  have htake : Step plan c b := by
    have hmove : Move plan c (c.takeUp plan i m) := .takeUp hm hpost hturn
    rw [takeUp_of_goes hgoes, hopening] at hmove
    exact .move hmove
  have hwaiters : b.room.waiters =
      [w.turn (if c.room.isCancelled w then .ringing else .arriving)] := by
    show (c.room.arrive w).waiters = _
    rw [Room.waiters_arrive, h.waiters_eq_nil hresting]
    rfl
  obtain ⟨d, v, hrun, hmembers, hstanding, halarms, hlimiter, htokens, houtside⟩ :=
    exists_come hwaiters
  have hmember : d.members[i]? = some (m.turn (.asking refused t)) := by
    rw [hmembers]
    exact (getElem?_put hm _ _).trans (if_pos rfl)
  have hfree' : d.room.limiter.hasFree = true := by
    rw [hlimiter]
    exact (congrArg Limiter.hasFree (Room.limiter_arrive ..)).trans hfree
  have hsignal : ∀ team, d.signal plan team = c.signal plan team := signal_of_fired fun s => by
    rw [htokens]
    exact Room.fired_arrive ..
  obtain ⟨c', hrun', hmembers', halarms', hsignal', houtside'⟩ :=
    run_of_asking ((htake.sound h).run hrun) hmember rfl hstanding hfree'
  refine ⟨c', (ReflTransGen.head htake hrun).trans hrun', ?_, ?_, fun team => ?_, ?_⟩
  · rw [hmembers', members_put_put hmembers, Member.task_turn, hsignal]
  · rw [halarms', halarms]
    exact (Room.alarms_arrive ..).trans hresting.alarms
  · rw [hsignal', hsignal]
  · rw [houtside', houtside]
    rfl

/-! ### One member after the other -/

/-- Some members are done, and nobody has taken up the others. -/
structure Paused (c : Crew σ τ α) (before rest : List (Member τ α)) : Prop where
  members : c.members = before ++ rest
  finished : ∀ m ∈ before, m.post.result?.isSome
  waits : ∀ m ∈ rest, m.post = .waiting
  alarms : c.room.alarms = []

variable {before rest : List (Member τ α)}

theorem Paused.apart (h : c.Paused before rest) (hm : m ∈ c.members) :
    m.post = .waiting ∨ ∃ held x, m.post = .done held x := by
  rw [h.members] at hm
  rcases List.mem_append.mp hm with hbefore | hrest
  · have hfinished := h.finished m hbefore
    cases hpost : m.post with
    | done held x => exact .inr ⟨held, x, rfl⟩
    | _ => simp [hpost, Post.result?] at hfinished
  · exact .inl (h.waits m hrest)

theorem Paused.resting (h : c.Paused before rest) : c.Resting where
  idle m hm := by
    rcases h.apart hm with hpost | ⟨held, x, hpost⟩ <;> rw [hpost] <;> rfl
  alarms := h.alarms

theorem Paused.getElem? (h : c.Paused before (m :: rest)) : c.members[before.length]? = some m := by
  rw [h.members, List.getElem?_append_right (Nat.le_refl _), Nat.sub_self]
  rfl

theorem Paused.turn (h : c.Paused before (m :: rest)) (hsize : 0 < (plan.teams m.task.team).size) :
    c.Turn plan before.length m where
  first j hj m' hm' _ := by
    rw [h.members, List.getElem?_append_left hj] at hm'
    have hfinished := h.finished m' (List.mem_of_getElem? hm')
    cases hpost : m'.post with
    | waiting => simp [hpost, Post.result?] at hfinished
    | _ => rfl
  thread := by
    have hidle : c.busy m.task.team = 0 := by
      refine List.countP_eq_zero.mpr fun m' hm' => ?_
      rcases h.apart hm' with hpost | ⟨held, x, hpost⟩ <;> simp [hpost, Post.isBusy, Post.isWaiting, Post.result?]
    rwa [hidle]

theorem Paused.hasFree (h : c.Paused before rest) (hsound : c.Sound plan l tasks)
    (hfree : l.hasFree = true) : c.room.limiter.hasFree = true := by
  have hnone : (c.members.countP fun m => m.post.holds) = 0 := by
    refine List.countP_eq_zero.mpr fun m hm => ?_
    rcases h.apart hm with hpost | ⟨held, x, hpost⟩ <;> simp [hpost, Post.holds]
  rwa [Limiter.hasFree, hsound.active, hsound.capacity, hnone]

/-- The next member is done. -/
theorem Paused.next (h : c.Paused before (m :: rest)) {c' : Crew σ τ α} {held : Bool} {x : α}
    (hmembers : c'.members = (c.put before.length m (.done held x)).members)
    (halarms : c'.room.alarms = []) : c'.Paused (before ++ [m.turn (.done held x)]) rest where
  members := by
    rw [hmembers, members_put, h.members]
    simp
  finished m' hm' := by
    rcases List.mem_append.mp hm' with hold | hnew
    · exact h.finished m' hold
    · obtain rfl := List.mem_singleton.mp hnew
      rfl
  waits m' hm' := h.waits m' (List.mem_cons_of_mem m hm')
  alarms := halarms

end Crew

namespace Runner

variable {r : Runner} {env : Environment σ} {repo name : String} {languages : List LanguageName}
  {team : Nat} {l : Limiter} {plan : Plan σ (Procedure ToolResult) ToolResult}
  {tasks : List (Task (Procedure ToolResult) ToolResult)}
  {c : Crew σ (Procedure ToolResult) ToolResult}
  {before rest : List (Member (Procedure ToolResult) ToolResult)}
  {m : Member (Procedure ToolResult) ToolResult} {st : Setting σ}

/-- A runner deals with one name after another: a fired signal passes it over. -/
def deal (r : Runner) (env : Environment σ) (watchful : Bool) (repo : String)
    (languages : List LanguageName) (name : String) (st : Setting σ) : ToolResult × Setting σ :=
  if watchful && st.signal.isFired then (passedOver name, st)
  else r.runScanner env name repo languages st

/-- What a crew shares with the setting of a runner. -/
structure Shows (plan : Plan σ (Procedure ToolResult) ToolResult)
    (c : Crew σ (Procedure ToolResult) ToolResult) (team : Nat) (st : Setting σ) : Prop where
  signal : c.signal plan team = st.signal
  outside : c.outside = st.outside

/-- The scanner of a name is the next of a team that rests, and the crew shows a setting. -/
structure IsNext (r : Runner) (repo : String) (languages : List LanguageName) (name : String)
    (plan : Plan σ (Procedure ToolResult) ToolResult) (c : Crew σ (Procedure ToolResult) ToolResult)
    (before rest : List (Member (Procedure ToolResult) ToolResult))
    (m : Member (Procedure ToolResult) ToolResult) (st : Setting σ) : Prop where
  paused : c.Paused before (m :: rest)
  task : m.task = r.task repo languages st.limiter.isSome m.task.team name
  size : 0 < (plan.teams m.task.team).size
  shows : Shows plan c m.task.team st

/-- The next scanner comes to this, in this setting. -/
def Dealt (plan : Plan σ (Procedure ToolResult) ToolResult)
    (c : Crew σ (Procedure ToolResult) ToolResult)
    (before rest : List (Member (Procedure ToolResult) ToolResult))
    (m : Member (Procedure ToolResult) ToolResult) (st : Setting σ) (out : ToolResult × Setting σ) :
    Prop :=
  ∃ c' held, ReflTransGen (Crew.Step plan) c c' ∧
    c'.Paused (before ++ [m.turn (.done held out.1)]) rest ∧ Shows plan c' m.task.team out.2 ∧
    out.2.limiter = st.limiter.map fun l => l.afterUses (if held then 1 else 0)

namespace IsNext

variable (hnext : r.IsNext repo languages name plan c before rest m st)
include hnext

theorem skipped : m.task.skipped = passedOver name := by
  rw [hnext.task]
  rfl

theorem takes : Crew.Step plan c (c.takeUp plan before.length m) :=
  .move (.takeUp hnext.paused.getElem? (hnext.paused.waits m List.mem_cons_self)
    (hnext.paused.turn hnext.size))

/-- A task that is settled when it is taken up. -/
theorem settled {out : ToolResult} (hout : c.takeUp plan before.length m =
    c.put before.length m (.done false out)) : Dealt plan c before rest m st (out, st) := by
  refine ⟨_, false, .single hnext.takes, ?_, ?_, by cases st.limiter <;> rfl⟩
  · rw [hout]
    exact hnext.paused.next rfl hnext.paused.alarms
  · rw [hout]
    exact ⟨hnext.shows.signal, hnext.shows.outside⟩

variable (hwork : plan.work = .scanning env) (hkeeps : env.KeepsSignals) (h : c.Sound plan l tasks)
  (hgoes : ¬ Crew.PassesOver plan c m.task.team) {s : Scanner} (hs : r.registry.get? name = some s)
include hwork hkeeps h hgoes hs

/-- Without a limiter a scanner is worked on freely. -/
theorem free (hlimiter : st.limiter = none) :
    Dealt plan c before rest m st (r.runScanner env name repo languages st) := by
  have hopening : m.task.opening = .free (r.procedure s repo languages) := by
    rw [hnext.task, hlimiter]
    simp [Runner.task, hs]
  have htakes := hnext.takes
  rw [Crew.takeUp_of_goes hgoes, hopening] at htakes
  obtain ⟨c', hrun, hmembers, halarms, hsignal, houtside⟩ :=
    Crew.run_to_done hwork hkeeps (htakes.sound h)
      ((Crew.getElem?_put hnext.paused.getElem? _ _).trans (if_pos rfl)) rfl
      (hnext.paused.resting.put rfl rfl hnext.paused.alarms)
  have hstart : Shows plan (c.put before.length m (.working false (r.procedure s repo languages)))
      m.task.team st := ⟨hnext.shows.signal, hnext.shows.outside⟩
  simp only [Member.task_turn, hstart.signal, hstart.outside] at hmembers hsignal houtside
  simp only [runScanner, hs, Setting.inSlot, hlimiter]
  exact ⟨c', false, .head htakes hrun,
    hnext.paused.next (hmembers.trans (Crew.members_put_put rfl _)) halarms, ⟨hsignal, houtside⟩,
    by rw [hlimiter]; exact hlimiter⟩

/-- With a limiter a scanner is worked on in a slot, or kept from taking one. -/
theorem held {l' : Limiter} (hfree : l.hasFree = true) (hlimiter : st.limiter = some l') :
    Dealt plan c before rest m st (r.runScanner env name repo languages st) := by
  have hm := hnext.paused.getElem?
  have hopening : m.task.opening = .held (passedOver name) (r.procedure s repo languages) := by
    rw [hnext.task, hlimiter]
    simp [Runner.task, hs]
  obtain ⟨d, hcome, hmembers, halarms, hsignals, houtside⟩ :=
    Crew.run_of_held h hm (hnext.paused.waits m List.mem_cons_self) hopening
      (hnext.paused.turn hnext.size) hgoes hnext.paused.resting (hnext.paused.hasFree h hfree)
  have hshows : Shows plan d m.task.team st :=
    ⟨(hsignals _).trans hnext.shows.signal, houtside.trans hnext.shows.outside⟩
  rw [hnext.shows.signal] at hmembers
  cases hfired : st.signal.isFired with
  | true =>
    rw [hfired, if_pos rfl] at hmembers
    simp only [runScanner, hs, Setting.inSlot, hlimiter, hfired, if_true]
    exact ⟨d, false, hcome, hnext.paused.next hmembers halarms, hshows, hlimiter ▸ rfl⟩
  | false =>
    simp only [hfired, Bool.false_eq_true, if_false] at hmembers
    have hmember : d.members[before.length]? =
        some (m.turn (.working true (r.procedure s repo languages))) := by
      rw [hmembers]
      exact (Crew.getElem?_put hm _ _).trans (if_pos rfl)
    obtain ⟨c', hrun, hmembers', halarms', hsignal', houtside'⟩ :=
      Crew.run_to_done hwork hkeeps (h.run hcome) hmember rfl
        (hnext.paused.resting.put rfl hmembers halarms)
    simp only [Member.task_turn, hshows.signal, hshows.outside] at hmembers' hsignal' houtside'
    simp only [runScanner, hs, Setting.inSlot, hlimiter, hfired, Bool.false_eq_true, if_false]
    refine ⟨c', true, hcome.trans hrun,
      hnext.paused.next (hmembers'.trans (Crew.members_put_put hmembers _)) halarms',
      ⟨hsignal', houtside'⟩, ?_⟩
    rw [hlimiter]
    exact congrArg some l'.release_take

end IsNext

/-- **The scanner of a name that is next is dealt with as the runner deals with it.** -/
theorem IsNext.dealt (hnext : r.IsNext repo languages name plan c before rest m st)
    (hwork : plan.work = .scanning env) (hkeeps : env.KeepsSignals) (h : c.Sound plan l tasks)
    (hfree : l.hasFree = true) : Dealt plan c before rest m st
      (r.deal env (plan.teams m.task.team).watchful repo languages name st) := by
  have hpasses : Crew.PassesOver plan c m.task.team ↔
      ((plan.teams m.task.team).watchful && st.signal.isFired) = true := by
    rw [← hnext.shows.signal, Crew.PassesOver, Bool.and_eq_true]
  rw [deal]
  split
  · next hfired =>
    refine hnext.settled ?_
    rw [Crew.takeUp, hnext.shows.signal, if_pos hfired, hnext.skipped]
  · next hquiet =>
    have hgoes := fun hpassed => hquiet (hpasses.mp hpassed)
    cases hs : r.registry.get? name with
    | none =>
      simp only [runScanner, hs]
      refine hnext.settled ?_
      rw [Crew.takeUp_of_goes hgoes, hnext.task]
      simp [Runner.task, hs]
    | some s =>
      cases hlimiter : st.limiter with
      | none => exact hnext.free hwork hkeeps h hgoes hs hlimiter
      | some l' => exact hnext.held hwork hkeeps h hgoes hs hfree hlimiter

theorem runInOrder_cons (r : Runner) (env : Environment σ) (watchful : Bool) (name : String)
    (names : List String) (st : Setting σ) :
    r.runInOrder env watchful repo languages (name :: names) st =
      let next := r.deal env watchful repo languages name st
      let others := r.runInOrder env watchful repo languages names next.2
      (next.1 :: others.1, others.2) := rfl

/-- The scanners of the names that are left are dealt with in their order. -/
theorem run_of_names (hwork : plan.work = .scanning env) (hkeeps : env.KeepsSignals)
    (h : c.Sound plan l tasks) (hfree : l.hasFree = true) (hpaused : c.Paused before rest)
    {names : List String}
    (htasks : rest.map Member.task = names.map (r.task repo languages st.limiter.isSome team))
    (hsize : 0 < (plan.teams team).size) (hshows : Shows plan c team st) :
    let out := r.runInOrder env (plan.teams team).watchful repo languages names st
    ∃ c' after, ReflTransGen (Crew.Step plan) c c' ∧ c'.Paused (before ++ after) [] ∧
      (after.filterMap fun m => m.post.result?) = out.1 ∧ Shows plan c' team out.2 ∧
      out.2.limiter = st.limiter.map fun l => l.afterUses (after.countP fun m => m.post.gaveBack) := by
  induction names generalizing c before rest st with
  | nil =>
    obtain rfl : rest = [] := List.map_eq_nil_iff.mp htasks
    refine ⟨c, [], .refl, (List.append_nil before).symm ▸ hpaused, rfl, hshows, ?_⟩
    cases hlimiter : st.limiter <;> simp [runInOrder, hlimiter, Limiter.afterUses]
  | cons name names ih =>
    obtain ⟨m, rest, rfl, htask, htasks⟩ := List.map_eq_cons_iff.mp htasks
    obtain rfl : m.task.team = team := by rw [htask]; rfl
    obtain ⟨d, held, hrun, hpaused', hshows', hlimiter⟩ :=
      IsNext.dealt ⟨hpaused, htask, hsize, hshows⟩ hwork hkeeps h hfree
    have hlimited : st.limiter.isSome =
        (r.deal env (plan.teams m.task.team).watchful repo languages name st).2.limiter.isSome := by
      rw [hlimiter, Option.isSome_map]
    rw [hlimited] at htasks
    obtain ⟨c', after, hrun', hpaused'', hresults, hshows'', hlimiter'⟩ :=
      ih (h.run hrun) hpaused' htasks hshows'
    rw [runInOrder_cons]
    refine ⟨c', _ :: after, hrun.trans hrun', by rwa [List.append_assoc] at hpaused'', ?_, hshows'', ?_⟩
    · exact congrArg _ hresults
    · rw [hlimiter', hlimiter, Option.map_map]
      refine congrArg (Option.map · st.limiter) (funext fun l => ?_)
      rw [Function.comp_apply, Limiter.afterUses_add, List.countP_cons]
      cases held <;> rfl

theorem size_team_pos (r : Runner) (names : List String) (signal : Option String) :
    0 < (r.team names signal).size := by
  rw [team]
  split
  · exact Nat.one_pos
  · next hparallel =>
    have hmany : 1 < r.parallel := by
      simp only [isSequential, Bool.or_eq_true, decide_eq_true_eq, not_or, Int.not_le] at hparallel
      exact hparallel.1
    exact Int.lt_toNat.mpr (Int.lt_trans Int.zero_lt_one hmany)

/-- A crew with tasks can begin with the signal of a setting. -/
theorem exists_begun {signal : Option String} (hteam : plan.teams team = r.team names signal)
    (hsignal : signal = none ↔ st.signal = .absent) {task : Task (Procedure ToolResult) ToolResult}
    (htask : task.team = team) (htasks : task ∈ tasks) :
    ∃ c, Crew.Reachable plan l tasks st.outside c ∧
      c.Paused [] (tasks.map fun task => { task := task }) ∧ Shows plan c team st := by
  have hpaused : (Crew.start l tasks st.outside).Paused [] (tasks.map fun task => { task := task }) :=
    ⟨rfl, fun m hm => absurd hm List.not_mem_nil,
      fun m hm => by obtain ⟨_, -, rfl⟩ := List.mem_map.mp hm; rfl, rfl⟩
  have hname : (plan.teams team).signal = signal := by rw [hteam]; rfl
  cases signal with
  | none =>
    refine ⟨_, .refl, hpaused, ?_, rfl⟩
    rw [Crew.signal, hname, hsignal.mp rfl]
  | some s =>
    have hquiet : (Crew.start l tasks st.outside).signal plan team = .quiet := by
      rw [Crew.signal, hname]
      rfl
    cases hst : st.signal with
    | absent => exact absurd (hsignal.mpr hst) (by simp)
    | quiet => exact ⟨_, .refl, hpaused, hquiet.trans hst.symm, rfl⟩
    | fired =>
      refine ⟨(Crew.start l tasks st.outside).within
        ((Crew.start l tasks st.outside).room.fire s), .single ?_, ?_, ?_, rfl⟩
      · exact .fire (m := { task := task }) (List.mem_map_of_mem htasks) (by rw [htask]; exact hname) rfl
      · refine ⟨hpaused.members, hpaused.finished, hpaused.waits, ?_⟩
        have hsound := Crew.sound_start plan l tasks st.outside
        exact (Room.alarms_fire hsound.room rfl s).trans rfl
      · rw [Crew.signal, hname, hst]
        simp [Crew.within, Room.fired_fire]

/-- The plan of a team that runs the scanners of some names, alone. -/
def solo (r : Runner) (env : Environment σ) (names : List String) (signal : Option String) :
    Plan σ (Procedure ToolResult) ToolResult where
  teams _ := r.team names signal
  work := .scanning env

/-- **What a runner comes to is what some schedule of its team comes to.** -/
theorem exists_schedule (hkeeps : env.KeepsSignals) (hfree : l.hasFree = true) (r : Runner)
    (repo : String) (languages : List LanguageName) (names : List String) {signal : Option String}
    (hsignal : signal = none ↔ st.signal = .absent) :
    let tasks := names.map (r.task repo languages st.limiter.isSome 0)
    let out := r.runScanners env repo languages (some names) st
    ∃ c, Crew.Reachable (r.solo env names signal) l tasks st.outside c ∧ c.Finished ∧
      c.results 0 = out.1 ∧ c.outside = out.2.outside ∧
      out.2.limiter = st.limiter.map fun l =>
        l.afterUses (c.members.countP fun m => m.post.gaveBack) := by
  intro tasks out
  cases names with
  | nil =>
    refine ⟨Crew.start l [] st.outside, .refl, fun m hm => absurd hm List.not_mem_nil, rfl, rfl, ?_⟩
    cases hlimiter : st.limiter <;>
      simp [out, runScanners, runInOrder, hlimiter, Crew.start, Limiter.afterUses]
  | cons name names =>
    obtain ⟨b, hreachable, hpaused, hshows⟩ : ∃ b,
        Crew.Reachable (r.solo env (name :: names) signal) l tasks st.outside b ∧
          b.Paused [] (tasks.map fun task => { task := task }) ∧
            Shows (r.solo env (name :: names) signal) b 0 st :=
      exists_begun rfl hsignal rfl List.mem_cons_self
    obtain ⟨c, after, hrun, hpaused', hresults, hshows', hlimiter⟩ :=
      run_of_names rfl hkeeps hreachable.sound hfree hpaused
        (by rw [List.map_map]; exact List.map_id _) (r.size_team_pos _ signal) hshows
    have hmembers : c.members = after := by simpa using hpaused'.members
    have hreachable' : Crew.Reachable (r.solo env (name :: names) signal) l tasks st.outside c :=
      hreachable.trans hrun
    have hteam : ∀ m ∈ c.members, m.task.team = 0 := fun m hm => by
      have htask := List.mem_map_of_mem (f := Member.task) hm
      rw [hreachable'.sound.tasks] at htask
      obtain ⟨_, -, htask⟩ := List.mem_map.mp htask
      rw [← htask]
      rfl
    refine ⟨c, hreachable', fun m hm => hpaused'.finished m (by simpa [hmembers] using hm), ?_,
      hshows'.outside, by rw [hmembers]; exact hlimiter⟩
    rw [Crew.results, List.filter_eq_self.mpr fun m hm => decide_eq_true (hteam m hm), hmembers]
    exact hresults

end Runner

end RepoAudit
