import Mathlib.Data.List.Perm.Basic
import RepoAudit.Crew
import RepoAudit.Proofs.Limiter.Callers

/-!
# Schedules of a crew

What may happen next in a crew is left open: any member whose turn it is moves, and a signal may fire
at any time. What carries everything that is shown of schedules is the balance of the slots: those
that are taken are held by members, each member holds one at most, and gives it back once.

* `Crew.Move`, `Crew.Step`, `Crew.Reachable` — what may happen, and the crews that come of it;
* `Crew.Sound` — the invariant: who calls in the room, and who holds its slots;
* `Crew.Move.sound`, `Crew.Reachable.sound` — **it holds in every crew**;
* `Crew.Reachable.room_reachable` — the room of a crew goes through the steps of a room.
-/

namespace RepoAudit

open Relation

variable {σ τ α : Type}

@[simp] theorem Member.task_turn (m : Member τ α) (p : Post τ α) : (m.turn p).task = m.task := rfl

@[simp] theorem Member.post_turn (m : Member τ α) (p : Post τ α) : (m.turn p).post = p := rfl

/-- Whether a member calls for a slot, and has looked for the last time. -/
def Post.leaves? : Post τ α → Option Bool
  | asking _ _ => some false
  | admitted _ | turnedAway _ => some true
  | _ => none

namespace Crew

variable {plan : Plan σ τ α} {l : Limiter} {tasks : List (Task τ α)}
  {c c' : Crew σ τ α} {i j : Nat} {m m' : Member τ α} {w v : Waiter} {room : Room} {t : τ}
  {x refused : α} {held : Bool} {outside : σ}

/-! ### What may happen -/

/-- Whether it is a member's turn: every earlier task of its team has been taken up, and a thread of
the team is free. -/
structure Turn (plan : Plan σ τ α) (c : Crew σ τ α) (i : Nat) (m : Member τ α) : Prop where
  first : ∀ j < i, ∀ m', c.members[j]? = some m' → m'.task.team = m.task.team →
    m'.post.isWaiting = false
  thread : c.busy m.task.team < (plan.teams m.task.team).size

/-- What the members may do next. -/
inductive Move (plan : Plan σ τ α) (c : Crew σ τ α) : Crew σ τ α → Prop
  | takeUp {i : Nat} {m : Member τ α} (hm : c.members[i]? = some m) (hpost : m.post = .waiting)
      (hturn : c.Turn plan i m) : Move plan c (c.takeUp plan i m)
  | ringFor {i : Nat} {w : Waiter} (hstanding : c.room.standing i .ringing = some w) :
      Move plan c (c.within (c.room.ringFor i))
  | look {i : Nat} {m : Member τ α} {refused : α} {t : τ} {w : Waiter} {room : Room}
      (hm : c.members[i]? = some m) (hpost : m.post = .asking refused t)
      (hlooks : c.room.Looks i w room) : Move plan c ((c.look i m refused t w).within room)
  | getThrough {i : Nat} {m : Member τ α} {t : τ} {w : Waiter} (hm : c.members[i]? = some m)
      (hpost : m.post = .admitted t) (hstanding : c.room.standing i .leaving = some w) :
      Move plan c (c.getThrough i m t)
  | giveUp {i : Nat} {m : Member τ α} {refused : α} {w : Waiter} (hm : c.members[i]? = some m)
      (hpost : m.post = .turnedAway refused) (hstanding : c.room.standing i .leaving = some w) :
      Move plan c (c.giveUp i m refused)
  | work {i : Nat} {m : Member τ α} {held : Bool} {t : τ} (hm : c.members[i]? = some m)
      (hpost : m.post = .working held t) (hgoing : plan.work.outcome t = none) :
      Move plan c (c.work plan i m held t)
  | complete {i : Nat} {m : Member τ α} {held : Bool} {t : τ} {x : α}
      (hm : c.members[i]? = some m) (hpost : m.post = .working held t)
      (houtcome : plan.work.outcome t = some x) : Move plan c (c.complete i m held x)
  | giveBack {i : Nat} {m : Member τ α} {x : α} {number : Option Nat}
      (hm : c.members[i]? = some m) (hpost : m.post = .ended x)
      (hwoken : c.room.MayWake number) : Move plan c (c.giveBack i m x number)
  | ring {s : String} (hs : s ∈ c.room.alarms) : Move plan c (c.within (c.room.ring s))

/-- What may happen next: a member moves, or the signal of one fires. -/
inductive Step (plan : Plan σ τ α) (c : Crew σ τ α) : Crew σ τ α → Prop
  | move {c' : Crew σ τ α} (h : Move plan c c') : Step plan c c'
  | fire {m : Member τ α} {s : String} (hm : m ∈ c.members)
      (hs : (plan.teams m.task.team).signal = some s) (hquiet : (c.room.tokens s).fired = false) :
      Step plan c (c.within (c.room.fire s))

/-- The crews that come of tasks that nobody has taken up. -/
def Reachable (plan : Plan σ τ α) (l : Limiter) (tasks : List (Task τ α)) (outside : σ) :
    Crew σ τ α → Prop :=
  ReflTransGen (Step plan) (start l tasks outside)

theorem Reachable.moves (h : Reachable plan l tasks outside c) (hrun : ReflTransGen (Move plan) c c') :
    Reachable plan l tasks outside c' := by
  induction hrun with
  | refl => exact h
  | tail _ hmove ih => exact .tail ih (.move hmove)

/-- Whether all tasks are done. -/
def Finished (c : Crew σ τ α) : Prop := ∀ m ∈ c.members, m.post.result?.isSome

/-! ### One member among the others -/

theorem members_put (c : Crew σ τ α) (i : Nat) (m : Member τ α) (p : Post τ α) :
    (c.put i m p).members = c.members.set i (m.turn p) := rfl

theorem getElem?_put (hm : c.members[i]? = some m) (p : Post τ α) (j : Nat) :
    (c.put i m p).members[j]? = if i = j then some (m.turn p) else c.members[j]? := by
  have hi : i < c.members.length := (List.getElem?_eq_some_iff.mp hm).1
  rw [members_put, List.getElem?_set]
  simp [hi]

/-- Members are counted alike when one of them moves, but for that one. -/
theorem countP_put (hm : c.members[i]? = some m) (p : Post τ α) (f : Member τ α → Bool) :
    (c.put i m p).members.countP f + (if f m then 1 else 0) =
      c.members.countP f + if f (m.turn p) then 1 else 0 := by
  obtain ⟨hi, rfl⟩ := List.getElem?_eq_some_iff.mp hm
  have hafter := List.set_perm_cons_eraseIdx hi (c.members[i].turn p)
  have hbefore := List.getElem_cons_eraseIdx_perm hi
  rw [members_put, hafter.countP_eq f, ← hbefore.countP_eq f, List.countP_cons, List.countP_cons]
  omega

theorem map_task_put (hm : c.members[i]? = some m) (p : Post τ α) :
    (c.put i m p).members.map Member.task = c.members.map Member.task := by
  obtain ⟨hi, rfl⟩ := List.getElem?_eq_some_iff.mp hm
  have hi' : i < (c.members.map Member.task).length := by simpa using hi
  rw [members_put, List.map_set, Member.task_turn, ← List.getElem_map Member.task (h := hi')]
  exact List.set_getElem_self hi'

/-! ### The invariant -/

/-- A member as a caller, who is leaving or is not. -/
def card (plan : Plan σ τ α) (i : Nat) (m : Member τ α) (leaves : Bool) : Waiter where
  number := i
  signal := (plan.teams m.task.team).signal
  posture := if leaves then .leaving else .arriving

/-- What always holds in a crew: the room is sound, its callers are the members that ask for a slot,
every slot that is taken besides those that were taken before is held by a member, and every slot that
has been given back was given back by one. -/
structure Sound (plan : Plan σ τ α) (l : Limiter) (tasks : List (Task τ α)) (c : Crew σ τ α) : Prop where
  tasks : c.members.map Member.task = tasks
  room : c.room.Sound
  callers : ∀ v, v ∈ c.room.roll ↔ ∃ i m leaves, c.members[i]? = some m ∧
    m.post.leaves? = some leaves ∧ v = card plan i m leaves
  capacity : c.room.limiter.capacity = l.capacity
  within : c.room.limiter.active ≤ max l.active l.capacity
  active : c.room.limiter.active = l.active + c.members.countP fun m => m.post.holds
  processed : c.room.limiter.processed = l.processed + c.members.countP fun m => m.post.gaveBack

theorem sound_start (plan : Plan σ τ α) (l : Limiter) (tasks : List (Task τ α)) (outside : σ) :
    Sound plan l tasks (start l tasks outside) where
  tasks := by
    rw [start, List.map_map]
    exact List.map_id _
  room := .of_no_waiters rfl (fun _ => rfl) rfl
  callers v := by
    refine ⟨fun hv => absurd hv List.not_mem_nil, ?_⟩
    rintro ⟨i, m, leaves, hm, hleaves, -⟩
    obtain ⟨task, -, rfl⟩ := List.mem_map.mp (List.mem_of_getElem? hm)
    cases hleaves
  capacity := rfl
  within := Nat.le_max_left ..
  active := by
    have hnone : (start l tasks outside).members.countP (fun m => m.post.holds) = 0 := by
      simp [start, Post.holds]
    rw [hnone]
    rfl
  processed := by
    have hnone : (start l tasks outside).members.countP (fun m => m.post.gaveBack) = 0 := by
      simp [start, Post.gaveBack]
    rw [hnone]
    rfl

/-! ### A step of one member -/

/-- A member calls or does not, as before, exactly if the roll has its card. -/
theorem Sound.callers_of_same (h : c.Sound plan l tasks) (hm : c.members[i]? = some m)
    {p : Post τ α} (hp : p.leaves? = m.post.leaves?) (v : Waiter) :
    v ∈ c.room.roll ↔ v ∈ c.room.roll ∧ v.number ≠ i ∨
      ∃ leaves, p.leaves? = some leaves ∧ v = card plan i m leaves := by
  rw [hp]
  constructor
  · intro hv
    obtain ⟨j, m', leaves, hm', hleaves, rfl⟩ := (h.callers v).mp hv
    by_cases hj : j = i
    · subst hj
      obtain rfl := Option.some.inj (hm'.symm.trans hm)
      exact .inr ⟨leaves, hleaves, rfl⟩
    · exact .inl ⟨hv, hj⟩
  · rintro (⟨hv, -⟩ | ⟨leaves, hleaves, rfl⟩)
    · exact hv
    · exact (h.callers _).mpr ⟨i, m, leaves, hm, hleaves, rfl⟩

/-- A caller of the room is a member, and is known by its position. -/
theorem Sound.waiter_eq (h : c.Sound plan l tasks) (hm : c.members[w.number]? = some m)
    (hw : w ∈ c.room.waiters) : w.turn .leaving = card plan w.number m true := by
  obtain ⟨j, m', leaves, hm', -, hcard⟩ :=
    (h.callers w.card).mp (Room.mem_roll.mpr ⟨w, hw, rfl⟩)
  obtain rfl : w.number = j := congrArg Waiter.number hcard
  obtain rfl := Option.some.inj (hm'.symm.trans hm)
  have hturn := congrArg (fun v : Waiter => v.turn .leaving) hcard
  exact hturn

/-- A member moves to another post while its room changes. -/
theorem Sound.put (h : c.Sound plan l tasks) (hm : c.members[i]? = some m) (p : Post τ α)
    (room : Room) (outside : σ) (hroom : room.Sound)
    (hcallers : ∀ v, v ∈ room.roll ↔ v ∈ c.room.roll ∧ v.number ≠ i ∨
      ∃ leaves, p.leaves? = some leaves ∧ v = card plan i m leaves)
    (hcapacity : room.limiter.capacity = c.room.limiter.capacity)
    (hwithin : room.limiter.active ≤ max l.active l.capacity)
    (hactive : room.limiter.active + (if m.post.holds then 1 else 0) =
      c.room.limiter.active + if p.holds then 1 else 0)
    (hprocessed : room.limiter.processed + (if m.post.gaveBack then 1 else 0) =
      c.room.limiter.processed + if p.gaveBack then 1 else 0) :
    Sound plan l tasks { (c.put i m p).within room with outside := outside } where
  tasks := (map_task_put hm p).trans h.tasks
  room := hroom
  callers v := by
    show v ∈ room.roll ↔ ∃ j m' leaves, (c.put i m p).members[j]? = some m' ∧ _
    rw [hcallers v]
    constructor
    · rintro (⟨hv, hnumber⟩ | ⟨leaves, hleaves, rfl⟩)
      · obtain ⟨j, m', leaves, hm', hleaves, rfl⟩ := (h.callers v).mp hv
        refine ⟨j, m', leaves, ?_, hleaves, rfl⟩
        rw [getElem?_put hm, if_neg (fun heq => hnumber heq.symm), hm']
      · exact ⟨i, m.turn p, leaves, by rw [getElem?_put hm, if_pos rfl], hleaves, rfl⟩
    · rintro ⟨j, m', leaves, hm', hleaves, rfl⟩
      rw [getElem?_put hm] at hm'
      split at hm'
      · next heq =>
        subst heq
        obtain rfl := Option.some.inj hm'
        exact .inr ⟨leaves, hleaves, rfl⟩
      · next hne =>
        exact .inl ⟨(h.callers _).mpr ⟨j, m', leaves, hm', hleaves, rfl⟩, fun heq => hne heq.symm⟩
  capacity := hcapacity.trans h.capacity
  within := hwithin
  active := by
    have hcount : (c.put i m p).members.countP (fun m => m.post.holds) +
        (if m.post.holds then 1 else 0) =
          c.members.countP (fun m => m.post.holds) + if p.holds then 1 else 0 := countP_put hm p _
    have hold := h.active
    show room.limiter.active = l.active + (c.put i m p).members.countP fun m => m.post.holds
    omega
  processed := by
    have hcount : (c.put i m p).members.countP (fun m => m.post.gaveBack) +
        (if m.post.gaveBack then 1 else 0) =
          c.members.countP (fun m => m.post.gaveBack) + if p.gaveBack then 1 else 0 :=
      countP_put hm p _
    have hold := h.processed
    show room.limiter.processed =
      l.processed + (c.put i m p).members.countP fun m => m.post.gaveBack
    omega

/-- A member moves on without calling, taking a slot or giving one back. -/
theorem Sound.put_idle (h : c.Sound plan l tasks) (hm : c.members[i]? = some m) {p : Post τ α}
    (outside : σ) (hleaves : p.leaves? = m.post.leaves?) (hholds : p.holds = m.post.holds)
    (hgave : p.gaveBack = m.post.gaveBack) :
    Sound plan l tasks { c.put i m p with outside := outside } :=
  h.put hm p c.room outside h.room (h.callers_of_same hm hleaves) rfl h.within (by rw [hholds])
    (by rw [hgave])

/-- Callers wake, alarms ring and signals fire: no member moves and no slot changes hands. -/
theorem Sound.within_room (h : c.Sound plan l tasks) (hroom : room.Sound)
    (hroll : room.roll = c.room.roll) (hlimiter : room.limiter = c.room.limiter) :
    Sound plan l tasks (c.within room) where
  tasks := h.tasks
  room := hroom
  callers v := by
    show v ∈ room.roll ↔ _
    rw [hroll]
    exact h.callers v
  capacity := (congrArg Limiter.capacity hlimiter).trans h.capacity
  within := Nat.le_trans (Nat.le_of_eq (congrArg Limiter.active hlimiter)) h.within
  active := (congrArg Limiter.active hlimiter).trans h.active
  processed := (congrArg Limiter.processed hlimiter).trans h.processed

/-! ### What the moves do -/

/-- A member that waits calls nobody yet. -/
theorem Sound.number_ne (h : c.Sound plan l tasks) (hm : c.members[i]? = some m)
    (hpost : m.post.leaves? = none) (hv : v ∈ c.room.roll) : v.number ≠ i := by
  rcases (h.callers_of_same hm rfl v).mp hv with ⟨-, hne⟩ | ⟨leaves, hleaves, -⟩
  · exact hne
  · rw [hpost] at hleaves
    cases hleaves

theorem Sound.takeUp (h : c.Sound plan l tasks) (hm : c.members[i]? = some m)
    (hpost : m.post = .waiting) : Sound plan l tasks (c.takeUp plan i m) := by
  have hidle : ∀ p : Post τ α, p.leaves? = none → p.holds = false → p.gaveBack = false →
      Sound plan l tasks (c.put i m p) := fun p hleaves hholds hgave =>
    h.put_idle hm c.outside (by rw [hpost, hleaves]; rfl) (by rw [hpost, hholds]; rfl)
      (by rw [hpost, hgave]; rfl)
  rw [Crew.takeUp]
  split
  · exact hidle _ rfl rfl rfl
  · split
    · exact hidle _ rfl rfl rfl
    · exact hidle _ rfl rfl rfl
    · next refused t _ =>
      have hnone : m.post.leaves? = none := by rw [hpost]; rfl
      have hnew : ∀ v ∈ c.room.waiters, v.number ≠ i := fun v hv =>
        h.number_ne (v := v.card) hm hnone (Room.mem_roll.mpr ⟨v, hv, rfl⟩)
      refine h.put hm _ (c.room.arrive _) c.outside (h.room.arrive hnew) (fun v => ?_) ?_ ?_ ?_ ?_
      · rw [Room.roll_arrive, List.mem_append, List.mem_singleton]
        constructor
        · rintro (hv | rfl)
          · exact .inl ⟨hv, h.number_ne hm hnone hv⟩
          · exact .inr ⟨false, rfl, rfl⟩
        · rintro (⟨hv, -⟩ | ⟨leaves, hleaves, rfl⟩)
          · exact .inl hv
          · obtain rfl := Option.some.inj hleaves
            exact .inr rfl
      all_goals rw [Room.limiter_arrive]
      · exact h.within
      · rw [hpost]; rfl
      · rw [hpost]; rfl

/-- A member that looks goes on asking, or has got a slot, or has been refused one. -/
theorem Sound.look (h : c.Sound plan l tasks) (hm : c.members[i]? = some m)
    (hpost : m.post = .asking refused t) (hlooks : c.room.Looks i w room) :
    Sound plan l tasks ((c.look i m refused t w).within room) := by
  obtain ⟨hw, hnumber, -⟩ := hlooks.mem
  have hlooked := hlooks.looked h.room
  have hroom := hlooks.step.sound h.room
  subst hnumber
  have hcard := h.waiter_eq hm hw
  have hbefore : m.post.holds = false ∧ m.post.gaveBack = false := by rw [hpost]; exact ⟨rfl, rfl⟩
  -- a member that is leaving has its new card on the roll, and the others have theirs
  have hleaving : ∀ (p : Post τ α) leaving, c.room.decision w false = some leaving →
      p.leaves? = some true → ∀ v, v ∈ room.roll ↔ v ∈ c.room.roll ∧ v.number ≠ w.number ∨
        ∃ leaves, p.leaves? = some leaves ∧ v = card plan w.number m leaves := by
    intro p leaving hdecision hp v
    rw [hlooked.leaves hdecision, hcard, hp]
    simp only [Option.some.injEq, exists_eq_left']
  rw [Crew.look]
  cases hdecision : c.room.decision w false with
  | none =>
    have hactive := hlooked.spares (by simp [hdecision])
    refine h.put hm _ room c.outside hroom (fun v => ?_) hlooked.capacity ?_ ?_ ?_
    · rw [hlooked.stays hdecision]
      exact h.callers_of_same hm (by rw [hpost]; rfl) v
    · rw [hactive]
      exact h.within
    · rw [hactive, hbefore.1]; rfl
    · rw [hlooked.processed, hbefore.2]; rfl
  | some leaving =>
    cases leaving with
    | ok =>
      obtain ⟨hfree, hactive⟩ := hlooked.takes hdecision
      refine h.put hm _ room c.outside hroom (hleaving _ _ hdecision rfl) hlooked.capacity
        ?_ ?_ ?_
      · rw [hactive]
        rw [h.capacity] at hfree
        exact Nat.le_trans hfree (Nat.le_max_right ..)
      · rw [hactive, hbefore.1]; rfl
      · rw [hlooked.processed, hbefore.2]; rfl
    | error e =>
      have hactive := hlooked.spares (by simp [hdecision])
      refine h.put hm _ room c.outside hroom (hleaving _ _ hdecision rfl) hlooked.capacity
        ?_ ?_ ?_
      · rw [hactive]
        exact h.within
      · rw [hactive, hbefore.1]; rfl
      · rw [hlooked.processed, hbefore.2]; rfl

/-- A member that has looked for the last time takes its alarm back and does not call any more. -/
theorem Sound.part (h : c.Sound plan l tasks) (hm : c.members[i]? = some m)
    (hstanding : c.room.standing i .leaving = some w) {p : Post τ α} (hleaves : p.leaves? = none)
    (hholds : p.holds = m.post.holds) (hgave : p.gaveBack = m.post.gaveBack) :
    Sound plan l tasks ((c.put i m p).within (c.room.leave i)) := by
  refine h.put hm _ (c.room.leave i) c.outside (h.room.leave i) (fun v => ?_) ?_ ?_ ?_ ?_
  · rw [Room.mem_roll_leave hstanding, hleaves]
    simp
  all_goals rw [Room.limiter_leave]
  · exact h.within
  · rw [hholds]
  · rw [hgave]

/-- A member gives its slot back. -/
theorem Sound.giveBack {number : Option Nat} (h : c.Sound plan l tasks)
    (hm : c.members[i]? = some m) (hpost : m.post = .ended x) (hwoken : c.room.MayWake number) :
    Sound plan l tasks (c.giveBack i m x number) := by
  have hpos : 0 < c.room.limiter.active := by
    rw [h.active]
    refine Nat.lt_of_lt_of_le (List.countP_pos_iff.mpr ⟨m, List.mem_of_getElem? hm, ?_⟩)
      (Nat.le_add_left ..)
    rw [hpost]
    rfl
  have hlimiter := Room.limiter_releaseWaking hpos number
  have hrelease : c.room.limiter.release = { c.room.limiter with
      active := c.room.limiter.active - 1, processed := c.room.limiter.processed + 1 } :=
    if_neg (Nat.ne_of_gt hpos)
  refine h.put hm _ (c.room.releaseWaking number) c.outside (h.room.releaseWaking hwoken)
    (fun v => ?_) ?_ ?_ ?_ ?_
  · rw [Room.roll_releaseWaking h.room]
    exact h.callers_of_same hm (by rw [hpost]; rfl) v
  all_goals rw [hlimiter, hrelease]
  · exact Nat.le_trans (Nat.sub_le ..) h.within
  · rw [hpost]
    exact Nat.sub_add_cancel hpos
  · rw [hpost]; rfl

theorem Sound.fire (h : c.Sound plan l tasks) (s : String) :
    Sound plan l tasks (c.within (c.room.fire s)) :=
  h.within_room (h.room.fire s) rfl rfl

theorem Sound.notice (h : c.Sound plan l tasks) (name : Option String) (signal : Signal) :
    Sound plan l tasks (c.notice name signal) := by
  cases name with
  | none => exact h
  | some s =>
    rw [Crew.notice]
    split
    · exact h.fire s
    · exact h

/-- Work neither takes a slot nor gives one back, whatever it does to its signal. -/
theorem Sound.work (h : c.Sound plan l tasks) (hm : c.members[i]? = some m)
    (hpost : m.post = .working held t) : Sound plan l tasks (c.work plan i m held t) := by
  refine Sound.notice (h.put_idle hm _ ?_ ?_ ?_) _ _
  · rw [hpost]; rfl
  · rw [hpost]; cases held <;> rfl
  · rw [hpost]; rfl

theorem Sound.complete (h : c.Sound plan l tasks) (hm : c.members[i]? = some m)
    (hpost : m.post = .working held t) (x : α) : Sound plan l tasks (c.complete i m held x) := by
  rw [Crew.complete]
  cases held with
  | true =>
    exact h.put_idle hm c.outside (by rw [hpost]; rfl) (by rw [hpost]; rfl)
      (by rw [hpost]; rfl)
  | false =>
    exact h.put_idle hm c.outside (by rw [hpost]; rfl) (by rw [hpost]; rfl)
      (by rw [hpost]; rfl)

/-- **Every move keeps the slots in balance.** -/
theorem Move.sound (hmove : Move plan c c') (h : c.Sound plan l tasks) : c'.Sound plan l tasks := by
  cases hmove with
  | takeUp hm hpost _ => exact h.takeUp hm hpost
  | ringFor _ =>
    exact h.within_room (h.room.ringFor _) (Room.roll_ringFor h.room _) (Room.limiter_ringFor ..)
  | look hm hpost hlooks => exact h.look hm hpost hlooks
  | getThrough hm hpost hstanding =>
    exact h.part hm hstanding rfl (by rw [hpost]; rfl) (by rw [hpost]; rfl)
  | giveUp hm hpost hstanding =>
    exact h.part hm hstanding rfl (by rw [hpost]; rfl) (by rw [hpost]; rfl)
  | work hm hpost _ => exact h.work hm hpost
  | complete hm hpost _ => exact h.complete hm hpost _
  | giveBack hm hpost hwoken => exact h.giveBack hm hpost hwoken
  | ring _ => exact h.within_room (h.room.ring _) (Room.roll_ring ..) (Room.limiter_ring ..)

theorem Step.sound (hstep : Step plan c c') (h : c.Sound plan l tasks) : c'.Sound plan l tasks := by
  cases hstep with
  | move hmove => exact hmove.sound h
  | fire _ _ _ => exact h.fire _

theorem Sound.run (h : c.Sound plan l tasks) (hrun : ReflTransGen (Step plan) c c') :
    c'.Sound plan l tasks := by
  induction hrun with
  | refl => exact h
  | tail _ hstep ih => exact hstep.sound ih

theorem Reachable.sound (h : Reachable plan l tasks outside c) : c.Sound plan l tasks :=
  (sound_start plan l tasks outside).run h

/-! ### The room of a crew -/

theorem room_notice (c : Crew σ τ α) (name : Option String) (signal : Signal) :
    (c.notice name signal).room = c.room ∨ ∃ s, (c.notice name signal).room = c.room.fire s := by
  cases name with
  | none => exact .inl rfl
  | some s =>
    rw [notice]
    split
    · exact .inr ⟨s, rfl⟩
    · exact .inl rfl

theorem Move.room_steps (hmove : Move plan c c') (h : c.Sound plan l tasks) :
    ReflTransGen Room.Step c.room c'.room := by
  cases hmove with
  | @takeUp i m hm hpost _ =>
    rw [Crew.takeUp]
    split
    · exact .refl
    · split
      · exact .refl
      · exact .refl
      · refine .single (.arrive _ fun v hv => ?_)
        exact h.number_ne (v := v.card) hm (by rw [hpost]; rfl) (Room.mem_roll.mpr ⟨v, hv, rfl⟩)
  | ringFor _ => exact .single (.ringFor _)
  | look _ _ hlooks => exact .single hlooks.step
  | getThrough _ _ _ => exact .single (.leave _)
  | giveUp _ _ _ => exact .single (.leave _)
  | work _ _ _ =>
    rw [Crew.work]
    rcases room_notice _ _ _ with hroom | ⟨s, hroom⟩
    · rw [hroom]
      exact .refl
    · rw [hroom]
      exact .single (.fire s)
  | complete _ _ _ => exact .refl
  | giveBack _ _ hwoken => exact .single (.release _ hwoken)
  | ring _ => exact .single (.ring _)

theorem Step.room_steps (hstep : Step plan c c') (h : c.Sound plan l tasks) :
    ReflTransGen Room.Step c.room c'.room := by
  cases hstep with
  | move hmove => exact hmove.room_steps h
  | fire _ _ _ => exact .single (.fire _)

/-- **The room of a crew is one that comes of callers, releases and signals.** -/
theorem Reachable.room_reachable {capacity : Int}
    (h : Reachable plan (.ofCapacity capacity) tasks outside c) : c.room.Reachable := by
  induction h with
  | refl => exact .empty capacity
  | tail hbefore hstep ih => exact ih.run (hstep.room_steps (Reachable.sound hbefore))

end Crew

end RepoAudit
