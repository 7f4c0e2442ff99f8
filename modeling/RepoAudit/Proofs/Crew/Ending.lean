import Mathlib.Data.DFinsupp.WellFounded
import RepoAudit.Proofs.Crew.Moves
import RepoAudit.Proofs.Crew.Progress

/-!
# Every schedule ends

Work that comes to an end by itself comes to an end in a crew, whoever is woken how often. A step of
work leaves less to do for one member, and for the others what they had; any other step leaves all of
them what they had and uses up some of what can still happen in the room.

* `Work.Follows` — what may be left of some work after one step of it;
* `Crew.agenda` — what each member has to do; `Crew.potential` — what can happen besides;
* `Crew.Step.shrinks` — **a step shortens the agenda, or keeps it and lowers the potential**;
* `Crew.Reachable.not_endless` — **no schedule goes on for ever**;
* `Crew.Sound.exists_finished` — so the members can go on until all tasks are done.
-/

namespace RepoAudit

open Relation

variable {σ τ α : Type}

/-! ### What is left of some work -/

/-- What may be left of some work after one step of it. -/
def Work.Follows (work : Work σ τ α) (t' t : τ) : Prop :=
  work.outcome t = none ∧ ∃ signal outside, t' = (work.step t signal outside).1.1

/-- The requests of a procedure come to an end, whatever they are answered. -/
theorem Procedure.follows_wellFounded (env : Environment σ) :
    WellFounded (Work.scanning env : Work σ (Procedure α) α).Follows := by
  refine ⟨fun p => ?_⟩
  induction p with
  | done x => exact ⟨_, fun t' h => nomatch h.1⟩
  | ask q next ih =>
    refine ⟨_, ?_⟩
    rintro _ ⟨-, signal, outside, rfl⟩
    exact ih _

/-- Less work: none any more, or what is left after a step. -/
inductive Work.Shorter (work : Work σ τ α) : Option τ → Option τ → Prop
  | ended (t : τ) : Shorter work none (some t)
  | stepped {t t' : τ} (h : work.Follows t' t) : Shorter work (some t') (some t)

theorem Work.shorter_wellFounded {work : Work σ τ α} (h : WellFounded work.Follows) :
    WellFounded work.Shorter := by
  have hnone : Acc work.Shorter none := ⟨_, fun _ hless => nomatch hless⟩
  refine ⟨fun left => ?_⟩
  cases left with
  | none => exact hnone
  | some t =>
    induction t using h.induction with
    | _ t ih =>
      refine ⟨_, fun left hless => ?_⟩
      cases hless with
      | ended => exact hnone
      | stepped hfollows => exact ih _ hfollows

/-- What there is to do for a task. -/
def Opening.work? : Opening τ α → Option τ
  | settled _ => none
  | free t | held _ t => some t

/-- What is left to do for a member. -/
def Member.work? (m : Member τ α) : Option τ :=
  match m.post with
  | .waiting => m.task.opening.work?
  | .asking _ t | .admitted t | .working _ t => some t
  | .turnedAway _ | .ended _ | .done _ _ => none

/-- How far a post is from being done, besides the work: first of all it may bring a caller into the
room. -/
def Post.weight (k : Nat) : Post τ α → Nat
  | waiting => 9 + k
  | asking _ _ | admitted _ | turnedAway _ => 4
  | working _ _ => 3
  | ended _ => 2
  | done _ _ => 0

namespace Crew

variable {plan : Plan σ τ α} {l : Limiter} {tasks : List (Task τ α)} {c c' : Crew σ τ α} {i : Nat}
  {m : Member τ α} {p : Post τ α} {room : Room} {outside : σ} {k : Nat}

/-! ### What a crew has to do -/

/-- What the member at a position has to do. -/
def agenda (c : Crew σ τ α) (i : Nat) : Option τ := c.members[i]?.bind Member.work?

/-- How many members have a signal that has not fired. -/
def listening (plan : Plan σ τ α) (c : Crew σ τ α) : Nat :=
  c.members.countP fun m => c.signal plan m.task.team = .quiet

/-- What can still happen in a crew besides work. -/
def potential (plan : Plan σ τ α) (k : Nat) (c : Crew σ τ α) : Nat :=
  (c.members.map fun m => m.post.weight k).sum + c.room.charge k + c.listening plan

/-- There is less to do for one member and the same for the others, or there is the same to do and
less can happen besides. -/
inductive Shrinks (plan : Plan σ τ α) (k : Nat) (c' c : Crew σ τ α) : Prop
  | work (i : Nat) (hi : i < c.members.length) (hothers : ∀ j, j ≠ i → c'.agenda j = c.agenda j)
      (hless : plan.work.Shorter (c'.agenda i) (c.agenda i))
  | rest (hsame : c'.agenda = c.agenda) (hless : c'.potential plan k < c.potential plan k)

theorem shrinks_wellFounded (hwork : WellFounded plan.work.Follows) (n : Nat) :
    WellFounded fun c' c : { c : Crew σ τ α // c.members.length = n } =>
      Shrinks plan k c'.1 c.1 := by
  let measure : { c : Crew σ τ α // c.members.length = n } → (Fin n → Option τ) × Nat :=
    fun c => (fun i => c.1.agenda i, c.1.potential plan k)
  have hagendas : WellFounded (Pi.Lex (fun i j : Fin n => i < j)
      fun {_} => plan.work.Shorter) :=
    Pi.Lex.wellFounded _ fun _ => Work.shorter_wellFounded hwork
  refine Subrelation.wf ?_ (InvImage.wf measure (hagendas.prod_lex Nat.lt_wfRel.wf))
  rintro ⟨c', hc'⟩ ⟨c, hc⟩ hshrinks
  cases hshrinks with
  | work i hi hothers hless =>
    refine Prod.Lex.left _ _ ⟨⟨i, hc ▸ hi⟩, fun j hj => hothers j ?_, hless⟩
    exact fun heq => absurd hj (by simp [Fin.lt_def, heq])
  | rest hsame hless =>
    have hfirst : (measure ⟨c', hc'⟩).1 = (measure ⟨c, hc⟩).1 := by
      funext i
      exact congrFun hsame i
    exact Prod.lex_def.mpr (.inr ⟨hfirst, hless⟩)

/-! ### A step of one member -/

theorem agenda_put (hm : c.members[i]? = some m) (p : Post τ α) (j : Nat) :
    (c.put i m p).agenda j = if i = j then (m.turn p).work? else c.agenda j := by
  rw [agenda, getElem?_put hm]
  split <;> rfl

theorem agenda_self (hm : c.members[i]? = some m) : c.agenda i = m.work? := by
  rw [agenda, hm]
  rfl

/-- The weights of the members, when one of them moves. -/
theorem sum_weight_put (hm : c.members[i]? = some m) (p : Post τ α) :
    ((c.put i m p).members.map fun m => m.post.weight k).sum + m.post.weight k =
      (c.members.map fun m => m.post.weight k).sum + p.weight k := by
  obtain ⟨hi, rfl⟩ := List.getElem?_eq_some_iff.mp hm
  have hafter := (List.set_perm_cons_eraseIdx hi (c.members[i].turn p)).map
    fun m => m.post.weight k
  have hbefore := (List.getElem_cons_eraseIdx_perm hi).map fun m => m.post.weight k
  rw [members_put, hafter.sum_eq, ← hbefore.sum_eq, List.map_cons, List.map_cons, List.sum_cons,
    List.sum_cons, Member.post_turn]
  omega

/-- Who listens does not change with posts, nor with what leaves the signals as they are. -/
theorem listening_congr (hmembers : c'.members.map Member.task = c.members.map Member.task)
    (hfired : ∀ s, (c'.room.tokens s).fired = (c.room.tokens s).fired) :
    c'.listening plan = c.listening plan := by
  have hsignal : ∀ team, c'.signal plan team = c.signal plan team := fun team => by
    simp only [signal, hfired]
  have hcount : ∀ c : Crew σ τ α, c.listening plan =
      (c.members.map Member.task).countP fun task => c.signal plan task.team = .quiet := fun c => by
    rw [List.countP_map]
    rfl
  rw [hcount, hcount, hmembers]
  simp only [hsignal]

/-- A member with as much to do as before moves, and the room has less in store. -/
theorem Shrinks.of_put (hm : c.members[i]? = some m) (hwork : (m.turn p).work? = m.work?)
    (hfired : ∀ s, (room.tokens s).fired = (c.room.tokens s).fired)
    (hless : p.weight k + room.charge k < m.post.weight k + c.room.charge k) :
    Shrinks plan k ((c.put i m p).within room) c := by
  refine .rest (funext fun j => ?_) ?_
  · refine (agenda_put hm p j).trans ?_
    split
    · next heq =>
      subst heq
      rw [hwork, agenda_self hm]
    · rfl
  · have hsum := sum_weight_put (k := k) hm p
    have hlisten : ((c.put i m p).within room).listening plan = c.listening plan :=
      listening_congr (map_task_put hm p) hfired
    rw [potential, potential, hlisten]
    show ((c.put i m p).members.map _).sum + room.charge k + _ < _
    omega

/-- A member has less to do. -/
theorem Shrinks.of_shorter (hm : c.members[i]? = some m)
    (hmembers : c'.members = (c.put i m p).members)
    (hless : plan.work.Shorter (m.turn p).work? m.work?) : Shrinks plan k c' c := by
  have hagenda : ∀ j, c'.agenda j = if i = j then (m.turn p).work? else c.agenda j := fun j => by
    rw [← agenda_put hm p j, agenda, hmembers]
    rfl
  refine .work i (List.getElem?_eq_some_iff.mp hm).1 (fun j hj => ?_) ?_
  · rw [hagenda, if_neg (Ne.symm hj)]
  · rw [hagenda, if_pos rfl, agenda_self hm]
    exact hless

/-- A member is done, in a room that has not got more in store. -/
theorem Shrinks.of_done {held : Bool} {x : α} (hm : c.members[i]? = some m)
    (hfired : ∀ s, (room.tokens s).fired = (c.room.tokens s).fired)
    (hless : room.charge k < m.post.weight k + c.room.charge k) :
    Shrinks plan k ((c.put i m (.done held x)).within room) c := by
  cases hwork : m.work? with
  | none =>
    refine .of_put hm (by rw [hwork]; rfl) hfired ?_
    rw [Post.weight, Nat.zero_add]
    exact hless
  | some t =>
    refine .of_shorter (p := .done held x) hm rfl ?_
    rw [hwork]
    exact .ended t

/-- No member moves, and the room has less in store. -/
theorem Shrinks.of_room (hfired : ∀ s, (room.tokens s).fired = (c.room.tokens s).fired)
    (hless : room.charge k < c.room.charge k) : Shrinks plan k (c.within room) c := by
  refine .rest rfl ?_
  have hlisten : (c.within room).listening plan = c.listening plan := listening_congr rfl hfired
  rw [potential, potential, hlisten]
  show (c.members.map _).sum + room.charge k + _ < _
  omega

/-! ### Every step -/

/-- There are no more callers than members. -/
theorem Sound.length_waiters (h : c.Sound plan l tasks) :
    c.room.waiters.length ≤ c.members.length := by
  have hsubset : c.room.waiters.map Waiter.number ⊆ List.range c.members.length := by
    intro n hn
    obtain ⟨w, hw, rfl⟩ := List.mem_map.mp hn
    obtain ⟨j, m, leaves, hm, -, hcard⟩ :=
      (h.callers w.card).mp (Room.mem_roll.mpr ⟨w, hw, rfl⟩)
    obtain rfl : w.number = j := congrArg Waiter.number hcard
    exact List.mem_range.mpr (List.getElem?_eq_some_iff.mp hm).1
  have hle := (List.subperm_of_subset h.room.distinct hsubset).length_le
  simpa using hle

/-- A task that is taken up weighs less, also with the caller that it may bring into the room. -/
theorem shrinks_takeUp (hm : c.members[i]? = some m) (hpost : m.post = .waiting) :
    Shrinks plan k (c.takeUp plan i m) c := by
  have hwaiting : m.post.weight k = 9 + k := by rw [hpost]; rfl
  have hdone : ∀ x, Shrinks plan k ((c.put i m (.done false x)).within c.room) c := fun x =>
    .of_done hm (fun _ => rfl) (by omega)
  rw [Crew.takeUp]
  split
  · exact hdone _
  · split
    · exact hdone _
    · next t hopening =>
      show Shrinks plan k ((c.put i m (.working false t)).within c.room) c
      refine .of_put hm ?_ (fun _ => rfl) ?_
      · simp [Member.work?, Member.turn, hpost, hopening, Opening.work?]
      · rw [hwaiting, Post.weight]
        omega
    · next refused t hopening =>
      have harrive := c.room.charge_arrive (k := k)
        { number := i, signal := (plan.teams m.task.team).signal }
      refine .of_put hm ?_ (Room.fired_arrive _ _) ?_
      · simp [Member.work?, Member.turn, hpost, hopening, Opening.work?]
      · rw [hwaiting, Post.weight]
        omega

/-- A look uses up some of what the caller can still do; one that is refused has nothing to do. -/
theorem shrinks_look {refused : α} {t : τ} {w : Waiter} (h : c.Sound plan l tasks)
    (hm : c.members[i]? = some m) (hpost : m.post = .asking refused t)
    (hlooks : c.room.Looks i w room) : Shrinks plan k ((c.look i m refused t w).within room) c := by
  have hcharge := hlooks.charge (k := k) h.room
  have hfired : ∀ s, (room.tokens s).fired = (c.room.tokens s).fired := fun s => by
    rw [hlooks.tokens]
  have hwork : m.work? = some t := by simp [Member.work?, hpost]
  rw [Crew.look]
  cases hdecision : c.room.decision w false with
  | none =>
    refine .of_put hm (by rw [hwork]; rfl) hfired ?_
    simp only [hpost, Post.decided, Post.weight]
    omega
  | some leaving =>
    cases leaving with
    | ok =>
      refine .of_put hm (by rw [hwork]; rfl) hfired ?_
      simp only [hpost, Post.decided, Post.weight]
      omega
    | error e =>
      refine .of_shorter (p := .turnedAway refused) hm rfl ?_
      rw [hwork]
      exact .ended t

/-- **Every move leaves less to do, or less that can happen.** -/
theorem Move.shrinks (hmove : Move plan c c') (h : c.Sound plan l tasks)
    (hk : c.members.length < k) : Shrinks plan k c' c := by
  have hwaiters : c.room.waiters.length < k := Nat.lt_of_le_of_lt h.length_waiters hk
  cases hmove with
  | takeUp hm hpost _ => exact shrinks_takeUp hm hpost
  | ringFor hstanding =>
    exact .of_room (fun s => by rw [Room.tokens_ringFor])
      (Room.charge_ringFor h.room hwaiters hstanding)
  | look hm hpost hlooks => exact shrinks_look h hm hpost hlooks
  | @getThrough i m t w hm hpost hstanding =>
    have hcharge := Room.charge_leave (k := k) h.room hstanding
    refine .of_put hm ?_ (Room.fired_leave _ _) ?_
    · simp [Member.work?, Member.turn, hpost]
    · rw [hpost, Post.weight, Post.weight]
      omega
  | giveUp hm hpost hstanding =>
    have hcharge := Room.charge_leave (k := k) h.room hstanding
    exact .of_done hm (Room.fired_leave _ _) (by omega)
  | @work i m held t hm hpost hgoing =>
    have hwork : m.work? = some t := by simp [Member.work?, hpost]
    rw [Crew.work]
    refine .of_shorter hm (members_notice ..) ?_
    rw [hwork]
    exact .stepped ⟨hgoing, _, _, rfl⟩
  | @complete i m held t x hm hpost houtcome =>
    have hwork : m.work? = some t := by simp [Member.work?, hpost]
    refine .of_shorter hm rfl ?_
    rw [hwork]
    cases held <;> exact .ended t
  | @giveBack i m x number hm hpost hwoken =>
    have hcharge := Room.charge_releaseWaking (k := k) h.room number
    refine .of_done hm (fun s => by rw [Room.tokens_releaseWaking]) ?_
    rw [hpost, Post.weight]
    omega
  | ring hs => exact .of_room (fun s => by rw [Room.tokens_ring]) (Room.charge_ring hwaiters hs)

/-- A signal that fires has one member less that listens, and nothing else has changed. -/
theorem listening_fire {s : String} (hm : m ∈ c.members)
    (hs : (plan.teams m.task.team).signal = some s) (hquiet : (c.room.tokens s).fired = false) :
    (c.within (c.room.fire s)).listening plan < c.listening plan := by
  obtain ⟨i, hi, rfl⟩ := List.getElem_of_mem hm
  have hperm := List.getElem_cons_eraseIdx_perm hi
  have hfires : (c.within (c.room.fire s)).signal plan c.members[i].task.team = .fired := by
    simp [signal, hs, within, Room.fired_fire]
  have hlistens : c.signal plan c.members[i].task.team = .quiet := by
    simp [signal, hs, hquiet]
  have hothers : ∀ team, (c.within (c.room.fire s)).signal plan team = .quiet →
      c.signal plan team = .quiet := by
    intro team hsignal
    simp only [signal, within, Room.fired_fire] at hsignal ⊢
    cases hname : (plan.teams team).signal with
    | none => simp [hname] at hsignal
    | some s' =>
      by_cases hsame : s' = s
      · simp [hname, hsame] at hsignal
      · simpa [hname, hsame] using hsignal
  rw [listening, listening]
  show c.members.countP _ < _
  rw [← hperm.countP_eq, ← hperm.countP_eq, List.countP_cons, List.countP_cons]
  simp only [hfires, hlistens, decide_true, decide_false, reduceCtorEq, if_true,
    Bool.false_eq_true, if_false, Nat.add_zero]
  refine Nat.lt_succ_of_le (List.countP_mono_left fun m' _ => ?_)
  simpa using hothers m'.task.team

/-- **Every step leaves less to do, or less that can happen.** -/
theorem Step.shrinks (hstep : Step plan c c') (h : c.Sound plan l tasks)
    (hk : c.members.length < k) : Shrinks plan k c' c := by
  cases hstep with
  | move hmove => exact hmove.shrinks h hk
  | @fire m s hm hs hquiet =>
    refine .rest rfl ?_
    have hcharge := Room.charge_fire (k := k) h.room hquiet
    have hlistening := listening_fire hm hs hquiet
    rw [potential, potential]
    show (c.members.map _).sum + (c.room.fire s).charge k + _ < _
    omega

/-- **No schedule goes on for ever**, if no work does. -/
theorem Reachable.not_endless (hwork : WellFounded plan.work.Follows) {f : Nat → Crew σ τ α}
    (hstart : Reachable plan l tasks outside (f 0)) : ¬ ∀ k, Step plan (f k) (f (k + 1)) := by
  intro hsteps
  have hsound : ∀ k, (f k).Sound plan l tasks := fun k => by
    induction k with
    | zero => exact hstart.sound
    | succ k ih => exact (hsteps k).sound ih
  have hlength : ∀ k, (f k).members.length = tasks.length := fun k => by
    rw [← (hsound k).tasks, List.length_map]
  have hless : ∀ k, Shrinks plan (tasks.length + 1) (f (k + 1)) (f k) := fun k =>
    (hsteps k).shrinks (hsound k) (by rw [hlength]; exact Nat.lt_succ_self _)
  exact (wellFounded_iff_isEmpty_descending_chain.mp
    (shrinks_wellFounded hwork tasks.length)).false ⟨fun k => ⟨f k, hlength k⟩, hless⟩

/-- The members can go on until all tasks are done. -/
theorem Sound.exists_finished (h : c.Sound plan l tasks) (hwork : WellFounded plan.work.Follows)
    (hfree : l.hasFree = true) (hsize : ∀ task ∈ tasks, 0 < (plan.teams task.team).size) :
    ∃ c', ReflTransGen (Move plan) c c' ∧ c'.Finished := by
  have hlength : ∀ {c}, Sound plan l tasks c → c.members.length = tasks.length := fun h => by
    rw [← h.tasks, List.length_map]
  have hends : ∀ x : { c : Crew σ τ α // c.members.length = tasks.length },
      x.1.Sound plan l tasks → ∃ c', ReflTransGen (Move plan) x.1 c' ∧ c'.Finished := by
    intro x
    induction x using (shrinks_wellFounded (k := tasks.length + 1) hwork tasks.length).induction with
    | _ x ih =>
      intro hx
      by_cases hfinished : x.1.Finished
      · exact ⟨x.1, .refl, hfinished⟩
      · obtain ⟨d, hmove⟩ := hx.exists_move hfree hsize hfinished
        have hd := hmove.sound hx
        have hless := hmove.shrinks hx (Nat.lt_succ_of_le (Nat.le_of_eq x.2))
        obtain ⟨c', hrun, hfinished⟩ := ih ⟨d, hlength hd⟩ hless hd
        exact ⟨c', .head hmove hrun, hfinished⟩
  exact hends ⟨c, hlength h⟩ h

end Crew

end RepoAudit
