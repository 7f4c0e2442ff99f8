import Mathlib.Data.Nat.Find
import RepoAudit.Proofs.Crew.Schedule

/-!
# Nobody is stuck

As long as a task is not done, somebody in the crew can move. Members wait for each other in two ways
only: for a slot, which is held by a member that can move, and for a thread of their team, which is
busy with a task that has been taken up. A sleeping caller beside a free slot has somebody that has
been woken, because no wakeup is lost.

* `Crew.Sound.exists_move_of_under_way` — a member that neither waits nor asks can move;
* `Crew.Sound.exists_move_of_asking` — while a member asks for a slot, somebody can move;
* `Crew.Sound.exists_move_of_waiting` — so it is while a task has not been taken up;
* `Crew.Sound.exists_move` — **somebody can move until all tasks are done**.
-/

namespace RepoAudit

namespace Room

variable {r : Room} {w : Waiter} 

theorem exists_standing (hw : w ∈ r.waiters) :
    ∃ v, r.standing w.number w.posture = some v := by
  refine Option.isSome_iff_exists.mp (List.find?_isSome.mpr ⟨w, hw, ?_⟩)
  simp

/-- A release finds somebody it may wake, or nobody sleeps. -/
theorem exists_mayWake (r : Room) : ∃ number, r.MayWake number := by
  by_cases hasleep : ∃ w ∈ r.waiters, w.posture = .asleep
  · obtain ⟨w, hw, hposture⟩ := hasleep
    obtain ⟨v, hv⟩ := exists_standing hw
    exact ⟨some w.number, v, by rwa [hposture] at hv⟩
  · exact ⟨none, fun w hw hposture => hasleep ⟨w, hw, hposture⟩⟩

end Room

namespace Post

variable {τ α : Type} {p : Post τ α}

theorem isBusy_of_holds (h : p.holds = true) : p.isBusy = true := by
  cases p <;> simp_all [holds, isBusy, isWaiting, result?]

theorem leaves?_of_holds (h : p.holds = true) : p.leaves? ≠ some false := by
  cases p <;> simp_all [holds, leaves?]

/-- A task has not been taken up, or somebody is busy with it, or it is done. -/
theorem isWaiting_or (p : Post τ α) :
    p.isWaiting = true ∨ p.isBusy = true ∨ p.result?.isSome = true := by
  cases p <;> simp [isWaiting, isBusy, result?]

end Post

namespace Crew

variable {σ τ α : Type} {plan : Plan σ τ α} {l : Limiter} {tasks : List (Task τ α)}
  {c : Crew σ τ α} {i : Nat} {m : Member τ α} {w : Waiter} {t : τ} {x refused : α}

/-- The caller of a member stands in the room. -/
theorem Sound.exists_caller (h : c.Sound plan l tasks) (hm : c.members[i]? = some m)
    {leaves : Bool} (hleaves : m.post.leaves? = some leaves) :
    ∃ w ∈ c.room.waiters, w.number = i ∧ (w.posture = .leaving ↔ leaves = true) := by
  have hcard := (h.callers (card plan i m leaves)).mpr ⟨i, m, leaves, hm, hleaves, rfl⟩
  obtain ⟨w, hw, heq⟩ := Room.mem_roll.mp hcard
  refine ⟨w, hw, congrArg Waiter.number heq, ?_⟩
  rw [← Waiter.posture_card, heq]
  cases leaves <;> simp [card]

/-- A caller that is not leaving is a member that asks. -/
theorem Sound.asks_of_caller (h : c.Sound plan l tasks) (hw : w ∈ c.room.waiters)
    (hposture : w.posture ≠ .leaving) :
    ∃ m refused t, c.members[w.number]? = some m ∧ m.post = .asking refused t := by
  obtain ⟨j, m, leaves, hm, hleaves, heq⟩ := (h.callers w.card).mp (Room.mem_roll.mpr ⟨w, hw, rfl⟩)
  obtain rfl : w.number = j := congrArg Waiter.number heq
  have hstays : leaves = false := by
    cases leaves with
    | false => rfl
    | true => exact absurd (Waiter.posture_card.mp (congrArg Waiter.posture heq)) hposture
  subst hstays
  cases hpost : m.post with
  | asking refused t => exact ⟨m, refused, t, hm, hpost⟩
  | _ =>
    rw [hpost] at hleaves
    cases hleaves

/-- A member that neither waits nor asks, and is not done, can move. -/
theorem Sound.exists_move_of_under_way (h : c.Sound plan l tasks) (hm : c.members[i]? = some m)
    (hbusy : m.post.isBusy = true) (hasks : m.post.leaves? ≠ some false) :
    ∃ c', Move plan c c' := by
  have hleaving : m.post.leaves? = some true → ∃ w, c.room.standing i .leaving = some w := by
    intro hleaves
    obtain ⟨w, hw, rfl, hposture⟩ := h.exists_caller hm hleaves
    have hstanding := Room.exists_standing hw
    rwa [hposture.mpr rfl] at hstanding
  cases hpost : m.post with
  | waiting => rw [hpost] at hbusy; cases hbusy
  | asking refused t => exact absurd (by rw [hpost]; rfl) hasks
  | admitted t =>
    obtain ⟨w, hstanding⟩ := hleaving (by rw [hpost]; rfl)
    exact ⟨_, .getThrough hm hpost hstanding⟩
  | turnedAway refused =>
    obtain ⟨w, hstanding⟩ := hleaving (by rw [hpost]; rfl)
    exact ⟨_, .giveUp hm hpost hstanding⟩
  | working held t =>
    cases houtcome : plan.work.outcome t with
    | none => exact ⟨_, .work hm hpost houtcome⟩
    | some x => exact ⟨_, .complete hm hpost houtcome⟩
  | ended x =>
    obtain ⟨number, hwoken⟩ := c.room.exists_mayWake
    exact ⟨_, .giveBack hm hpost hwoken⟩
  | done held x => rw [hpost] at hbusy; cases hbusy

/-- When all slots are taken, and one was free before, a member that holds one can move. -/
theorem Sound.exists_move_of_full (h : c.Sound plan l tasks) (hfree : l.hasFree = true)
    (hfull : c.room.limiter.hasFree = false) : ∃ c', Move plan c c' := by
  have hroom : l.active < l.capacity := by simpa [Limiter.hasFree] using hfree
  have hnone : c.room.limiter.capacity ≤ c.room.limiter.active := by
    simpa [Limiter.hasFree] using hfull
  have hheld : 0 < c.members.countP fun m => m.post.holds := by
    have hactive := h.active
    have hcapacity := h.capacity
    omega
  obtain ⟨m, hmem, hholds⟩ := List.countP_pos_iff.mp hheld
  obtain ⟨i, hm⟩ := List.mem_iff_getElem?.mp hmem
  exact h.exists_move_of_under_way hm (Post.isBusy_of_holds hholds) (Post.leaves?_of_holds hholds)

/-- A caller that has been woken can look. -/
theorem Sound.exists_move_of_awake (h : c.Sound plan l tasks) (hw : w ∈ c.room.waiters)
    (hawake : w.posture = .awake) : ∃ c', Move plan c c' := by
  obtain ⟨m, refused, t, hm, hpost⟩ := h.asks_of_caller hw (by simp [hawake])
  obtain ⟨v, hstanding⟩ := Room.exists_standing hw
  rw [hawake] at hstanding
  exact ⟨_, .look hm hpost (.again hstanding)⟩

/-- While a member asks for a slot, somebody can move. -/
theorem Sound.exists_move_of_asking (h : c.Sound plan l tasks) (hfree : l.hasFree = true)
    (hm : c.members[i]? = some m) (hpost : m.post = .asking refused t) : ∃ c', Move plan c c' := by
  have hleaves : m.post.leaves? = some false := by rw [hpost]; rfl
  obtain ⟨w, hw, rfl, hposture⟩ := h.exists_caller hm hleaves
  obtain ⟨v, hstanding⟩ := Room.exists_standing hw
  cases hwhere : w.posture with
  | ringing =>
    rw [hwhere] at hstanding
    exact ⟨_, .ringFor hstanding⟩
  | arriving =>
    rw [hwhere] at hstanding
    exact ⟨_, .look hm hpost (.first hstanding)⟩
  | awake => exact h.exists_move_of_awake hw hwhere
  | leaving => exact absurd (hposture.mp hwhere) Bool.false_ne_true
  | asleep =>
    -- an alarm is still to ring, or all slots are taken, or somebody has been woken
    cases halarms : c.room.alarms with
    | cons s rest => exact ⟨_, .ring (halarms ▸ List.mem_cons_self)⟩
    | nil =>
      cases hslot : c.room.limiter.hasFree with
      | false => exact h.exists_move_of_full hfree hslot
      | true =>
        obtain ⟨u, hu, hawake⟩ := h.room.exists_awake halarms hslot hw hwhere
        exact h.exists_move_of_awake hu hawake

/-- A member that is busy can move, or somebody else can. -/
theorem Sound.exists_move_of_busy (h : c.Sound plan l tasks) (hfree : l.hasFree = true)
    (hm : c.members[i]? = some m) (hbusy : m.post.isBusy = true) : ∃ c', Move plan c c' := by
  by_cases hasks : m.post.leaves? = some false
  · cases hpost : m.post with
    | asking refused t => exact h.exists_move_of_asking hfree hm hpost
    | _ =>
      rw [hpost] at hasks
      cases hasks
  · exact h.exists_move_of_under_way hm hbusy hasks

/-- While nobody is busy, the first task that waits can be taken up. -/
theorem exists_move_of_waiting (hsize : ∀ m ∈ c.members, 0 < (plan.teams m.task.team).size)
    (hidle : ∀ m ∈ c.members, m.post.isBusy = false)
    (hwaits : ∃ m ∈ c.members, m.post.isWaiting = true) : ∃ c', Move plan c c' := by
  have hfirst : ∃ i : Nat, ∃ m : Member τ α, c.members[i]? = some m ∧ m.post.isWaiting = true := by
    obtain ⟨m, hmem, hpost⟩ := hwaits
    obtain ⟨i, hm⟩ := List.mem_iff_getElem?.mp hmem
    exact ⟨i, m, hm, hpost⟩
  classical
  obtain ⟨m, hm, hpost⟩ := Nat.find_spec hfirst
  have hwaiting : m.post = .waiting := by
    cases hwhere : m.post with
    | waiting => rfl
    | _ =>
      rw [hwhere] at hpost
      cases hpost
  refine ⟨_, .takeUp hm hwaiting ⟨fun j hj m' hm' _ => ?_, ?_⟩⟩
  · cases hother : m'.post.isWaiting with
    | false => rfl
    | true => exact absurd ⟨m', hm', hother⟩ (Nat.find_min hfirst hj)
  · have hnone : c.busy m.task.team = 0 :=
      List.countP_eq_zero.mpr fun m' hm' => by simp [hidle m' hm']
    rw [hnone]
    exact hsize m (List.mem_of_getElem? hm)

/-- **Somebody can move until all tasks are done**, if every team has a thread and some slot is not
taken for good. -/
theorem Sound.exists_move (h : c.Sound plan l tasks) (hfree : l.hasFree = true)
    (hsize : ∀ task ∈ tasks, 0 < (plan.teams task.team).size) (hunfinished : ¬ c.Finished) :
    ∃ c', Move plan c c' := by
  by_cases hbusy : ∃ m ∈ c.members, m.post.isBusy = true
  · obtain ⟨m, hmem, hbusy⟩ := hbusy
    obtain ⟨i, hm⟩ := List.mem_iff_getElem?.mp hmem
    exact h.exists_move_of_busy hfree hm hbusy
  · have hidle : ∀ m ∈ c.members, m.post.isBusy = false := fun m hm => by
      cases hpost : m.post.isBusy with
      | false => rfl
      | true => exact absurd ⟨m, hm, hpost⟩ hbusy
    refine exists_move_of_waiting (fun m hm => hsize _ ?_) hidle ?_
    · rw [← h.tasks]
      exact List.mem_map_of_mem hm
    · -- a task that is not done and that nobody is busy with waits
      simp only [Finished, not_forall] at hunfinished
      obtain ⟨m, hm, hpost⟩ := hunfinished
      refine ⟨m, hm, ?_⟩
      rcases m.post.isWaiting_or with hwaiting | hbusy | hdone
      · exact hwaiting
      · exact absurd (hidle m hm) (by simp [hbusy])
      · exact absurd hdone hpost

end Crew

end RepoAudit
