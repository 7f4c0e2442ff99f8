import Mathlib.Data.List.Nodup
import Mathlib.Logic.Relation
import RepoAudit.Limiter.Room

/-!
# No wakeup is lost

A release wakes one sleeping caller, and that caller may leave without the slot: its signal may have
fired, or somebody else may have taken the slot first. Nobody is left asleep beside a free slot all
the same. What carries the proof is a count: as long as no alarm is still to ring, a sleeping caller
means that every free slot is matched by a woken caller that has not looked yet and will take it.

* `Room.Step`, `Room.Reachable` — what may happen in a room, in any order, and the rooms that come of
  it;
* `Room.heeding` — how many woken callers are going to take a slot;
* `Room.Sound` — the invariant; `Room.Step.sound` and `Room.Reachable.sound` — it holds throughout;
* `Room.no_lost_wakeup` — **beside a free slot and a sleeping caller there is another one that has been
  woken, or an alarm still to ring**;
* `Room.settle_wakes` — in a room that has settled nobody sleeps beside a free slot.
-/

namespace RepoAudit

open Relation

variable {w v : Waiter} {posture : Posture}

namespace Waiter

@[simp] theorem number_turn (w : Waiter) (posture : Posture) :
    (w.turn posture).number = w.number := rfl

@[simp] theorem signal_turn (w : Waiter) (posture : Posture) :
    (w.turn posture).signal = w.signal := rfl

@[simp] theorem posture_turn (w : Waiter) (posture : Posture) :
    (w.turn posture).posture = posture := rfl

@[simp] theorem number_woken : w.woken.number = w.number := by
  unfold woken
  split <;> rfl

@[simp] theorem signal_woken : w.woken.signal = w.signal := by
  unfold woken
  split <;> rfl

theorem woken_ne_asleep : w.woken.posture ≠ .asleep := by
  unfold woken
  split
  · simp
  · assumption

theorem woken_eq (h : w.posture ≠ .asleep) : w.woken = w := if_neg h

end Waiter

namespace Room

variable {r r' : Room} {s : String} {n : Nat} {expired : Bool} {l : Limiter}

/-! ### What may happen in a room -/

/-- Whom a release may wake: any sleeping caller, and nobody only if nobody sleeps. -/
def MayWake (r : Room) : Option Nat → Prop
  | none => ∀ w ∈ r.waiters, w.posture ≠ .asleep
  | some n => ∃ w, r.standing n .asleep = some w

/-- What may happen in a room at any time. Whether the time of a caller is up when it looks is left
open, and so is who is woken by a release. -/
inductive Step : Room → Room → Prop
  | arrive {r : Room} (w : Waiter) (hnew : ∀ v ∈ r.waiters, v.number ≠ w.number) : Step r (r.arrive w)
  | ringFor {r : Room} (n : Nat) : Step r (r.ringFor n)
  | enter {r : Room} (n : Nat) (expired : Bool) : Step r (r.enter n expired)
  | examine {r : Room} (n : Nat) (expired : Bool) : Step r (r.examine n expired)
  | expire {r : Room} (n : Nat) : Step r (r.expire n)
  | leave {r : Room} (n : Nat) : Step r (r.leave n)
  | tryTake {r : Room} : Step r r.tryTake.2
  | release {r : Room} (number : Option Nat) (hwoken : r.MayWake number) :
      Step r (r.releaseWaking number)
  | fire {r : Room} (s : String) : Step r (r.fire s)
  | ring {r : Room} (s : String) : Step r (r.ring s)

/-- A room that comes of an empty one. -/
inductive Reachable : Room → Prop
  | empty (capacity : Int) : Reachable { limiter := .ofCapacity capacity }
  | step {r r' : Room} (h : Reachable r) (hstep : Step r r') : Reachable r'

theorem Reachable.run (h : r.Reachable) (hrun : ReflTransGen Step r r') : r'.Reachable := by
  induction hrun with
  | refl => exact h
  | tail _ hstep ih => exact ih.step hstep

/-! ### One caller among the others -/

/-- A caller that stands somewhere. -/
theorem standing_eq_some (h : r.standing n posture = some w) :
    w ∈ r.waiters ∧ w.number = n ∧ w.posture = posture := by
  have hw := List.find?_some h
  simp only [Bool.and_eq_true, decide_eq_true_eq] at hw
  exact ⟨List.mem_of_find?_eq_some h, hw⟩

/-- With distinct numbers, a caller and the others are all callers. -/
theorem perm_others {ws : List Waiter} (hdistinct : (ws.map Waiter.number).Nodup) (hw : w ∈ ws) :
    ws.Perm (w :: ws.filter fun v => v.number ≠ w.number) := by
  induction ws with
  | nil => cases hw
  | cons v ws ih =>
    rw [List.map_cons, List.nodup_cons] at hdistinct
    rcases List.mem_cons.mp hw with rfl | hmem
    · have hall : ∀ v ∈ ws, v.number ≠ w.number := fun v hv heq =>
        hdistinct.1 (List.mem_map.mpr ⟨v, hv, heq⟩)
      have hothers : ws.filter (fun v => v.number ≠ w.number) = ws :=
        List.filter_eq_self.mpr fun v hv => by simpa using hall v hv
      simp only [List.filter_cons, ne_eq, not_true_eq_false, decide_false, Bool.false_eq_true,
        if_false] at hothers ⊢
      rw [hothers]
    · have hne : v.number ≠ w.number := fun heq => hdistinct.1 (List.mem_map.mpr ⟨w, hmem, heq.symm⟩)
      simp only [List.filter_cons, hne, ne_eq, not_false_eq_true, decide_true, if_true]
      exact ((ih hdistinct.2 hmem).cons v).trans (.swap w v _)

@[simp] theorem number_put (r : Room) (w : Waiter) :
    (r.put w).waiters.map Waiter.number = r.waiters.map Waiter.number := by
  simp only [put, List.map_map]
  refine List.map_congr_left fun v _ => ?_
  by_cases h : v.number = w.number <;> simp [h]

theorem mem_put (h : v ∈ (r.put w).waiters) : v = w ∨ v ∈ r.waiters ∧ v.number ≠ w.number := by
  obtain ⟨x, hx, hv⟩ := List.mem_map.mp h
  split at hv
  · exact .inl hv.symm
  · next hne => exact .inr (hv ▸ ⟨hx, hne⟩)

/-- The callers with one of them replaced are that one and the others. -/
theorem perm_put (hdistinct : (r.waiters.map Waiter.number).Nodup) (hw : w ∈ r.waiters)
    (hv : v.number = w.number) :
    (r.put v).waiters.Perm (v :: r.waiters.filter fun x => x.number ≠ w.number) := by
  have hmem : v ∈ (r.put v).waiters := List.mem_map.mpr ⟨w, hw, if_pos hv.symm⟩
  have hothers : (r.put v).waiters.filter (fun x => x.number ≠ v.number) =
      r.waiters.filter fun x => x.number ≠ w.number := by
    rw [put, List.filter_map, hv]
    have hkept : r.waiters.filter ((fun x => decide (x.number ≠ w.number)) ∘
        fun x => if x.number = w.number then v else x) =
        r.waiters.filter fun x => x.number ≠ w.number := by
      refine List.filter_congr fun x _ => ?_
      by_cases hx : x.number = w.number <;> simp [hx, hv]
    rw [hkept]
    refine (List.map_congr_left fun x hx => ?_).trans (List.map_id _)
    have hne : x.number ≠ w.number := by simpa using (List.mem_filter.mp hx).2
    rw [if_neg hne, id]
  have hperm := perm_others (by rwa [number_put]) hmem
  rwa [hothers] at hperm

/-- Counting callers when one of them is replaced. -/
theorem countP_put (hdistinct : (r.waiters.map Waiter.number).Nodup) (hw : w ∈ r.waiters)
    (hv : v.number = w.number) (p : Waiter → Bool) :
    (r.put v).waiters.countP p + (if p w then 1 else 0) =
      r.waiters.countP p + if p v then 1 else 0 := by
  rw [(perm_others hdistinct hw).countP_eq p, (perm_put hdistinct hw hv).countP_eq p,
    List.countP_cons, List.countP_cons]
  omega

/-- A change that makes no difference to what is counted. -/
theorem countP_put_eq (hdistinct : (r.waiters.map Waiter.number).Nodup) (hw : w ∈ r.waiters)
    (hv : v.number = w.number) {p : Waiter → Bool} (hp : p v = p w) :
    (r.put v).waiters.countP p = r.waiters.countP p := by
  have hcount := countP_put hdistinct hw hv p
  rw [hp] at hcount
  omega

/-! ### The invariant -/

/-- Whether a caller is going to take a slot: it has been woken, has not looked yet, and its signal
has not fired. -/
def heeds (r : Room) (w : Waiter) : Bool := w.posture = .awake && !r.isCancelled w

/-- How many callers are going to take a slot. -/
def heeding (r : Room) : Nat := r.waiters.countP r.heeds

/-- No sleeping caller is forgotten: its signal has not fired, and every free slot is matched by a
caller that is going to take it. -/
structure Covered (r : Room) : Prop where
  quiet : ∀ w ∈ r.waiters, w.posture = .asleep → r.isCancelled w = false
  slots : (∃ w ∈ r.waiters, w.posture = .asleep) → r.limiter.capacity ≤ r.limiter.active + r.heeding

/-- What always holds in a room: callers have different numbers; a signal that has not fired has the
alarms of its callers; alarms ring for fired signals only; and once all have rung, no sleeping caller
is forgotten. -/
structure Sound (r : Room) : Prop where
  distinct : (r.waiters.map Waiter.number).Nodup
  registered : ∀ s, (r.tokens s).fired = false →
    (r.tokens s).callbacks.length = r.waiters.countP fun w => w.signal = some s
  rung : ∀ s ∈ r.alarms, (r.tokens s).fired = true
  covered : r.alarms = [] → r.Covered

theorem sound_empty (capacity : Int) : Sound { limiter := .ofCapacity capacity } where
  distinct := .nil
  registered _ _ := rfl
  rung _ hs := absurd hs List.not_mem_nil
  covered _ := ⟨fun _ hw => absurd hw List.not_mem_nil, fun ⟨_, hw, _⟩ => absurd hw List.not_mem_nil⟩

/-- Where nobody sleeps, nobody is forgotten. -/
theorem Covered.of_none_asleep (h : ∀ w ∈ r.waiters, w.posture ≠ .asleep) : r.Covered where
  quiet w hw hasleep := absurd hasleep (h w hw)
  slots := fun ⟨w, hw, hasleep⟩ => absurd hasleep (h w hw)

/-! ### Slots come and go -/

theorem Covered.relimit (h : r.Covered) (hcapacity : l.capacity = r.limiter.capacity)
    (hactive : r.limiter.active ≤ l.active) : Covered { r with limiter := l } where
  quiet := h.quiet
  slots hasleep := by
    have hslots := h.slots hasleep
    show l.capacity ≤ l.active + r.heeding
    omega

/-- Taking slots and counting is no harm. -/
theorem Sound.relimit (h : r.Sound) (hcapacity : l.capacity = r.limiter.capacity)
    (hactive : r.limiter.active ≤ l.active) : Sound { r with limiter := l } :=
  ⟨h.distinct, h.registered, h.rung, fun halarms => (h.covered halarms).relimit hcapacity hactive⟩

theorem Sound.tryTake (h : r.Sound) : r.tryTake.2.Sound := by
  cases hfree : r.limiter.hasFree with
  | true =>
    have htake : r.tryTake.2 = { r with limiter := r.limiter.take } := by
      simp [Room.tryTake, Limiter.tryTake, hfree]
    rw [htake]
    exact h.relimit rfl (Nat.le_succ _)
  | false =>
    have htake : r.tryTake.2 = r := by simp [Room.tryTake, Limiter.tryTake, hfree]
    rwa [htake]

/-! ### One caller moves -/

/-- A caller takes another posture while slots change hands. What is left to see is that nobody is
forgotten. -/
theorem Sound.turn {left : List (Nat × Leaving)} (h : r.Sound) (hw : w ∈ r.waiters)
    (posture : Posture) (hquiet : posture = .asleep → r.isCancelled w = false)
    (hslots : r.alarms = [] → r.Covered →
      (∃ v ∈ (r.put (w.turn posture)).waiters, v.posture = .asleep) →
        l.capacity ≤ l.active + (r.put (w.turn posture)).heeding) :
    Sound { r.put (w.turn posture) with limiter := l, left := left } where
  distinct := by
    show ((r.put (w.turn posture)).waiters.map Waiter.number).Nodup
    rw [number_put]
    exact h.distinct
  registered s hs := by
    refine (h.registered s hs).trans (Eq.symm ?_)
    exact countP_put_eq h.distinct hw (w.number_turn posture) rfl
  rung := h.rung
  covered halarms := by
    have hcovered := h.covered halarms
    refine ⟨fun v hv hasleep => ?_, hslots halarms hcovered⟩
    rcases mem_put hv with rfl | ⟨hold, -⟩
    · exact hquiet hasleep
    · exact hcovered.quiet v hold hasleep

/-- How many callers are going to take a slot after one of them has taken another posture. -/
theorem heeding_put (h : r.Sound) (hw : w ∈ r.waiters) (posture : Posture) :
    (r.put (w.turn posture)).heeding + (if r.heeds w then 1 else 0) =
      r.heeding + if r.heeds (w.turn posture) then 1 else 0 :=
  countP_put h.distinct hw (w.number_turn posture) r.heeds

/-- A caller that is not going to take a slot any more counts for one at most. -/
theorem heeding_le_put (h : r.Sound) (hw : w ∈ r.waiters) (posture : Posture) :
    r.heeding ≤ (r.put (w.turn posture)).heeding + 1 := by
  have hcount := heeding_put h hw posture
  split at hcount <;> omega

/-- A caller that was not going to take a slot and is not now makes no difference. -/
theorem heeding_put_eq (h : r.Sound) (hw : w ∈ r.waiters) (hbefore : r.heeds w = false)
    (hafter : r.heeds (w.turn posture) = false) : (r.put (w.turn posture)).heeding = r.heeding := by
  have hcount := heeding_put h hw posture
  rw [hbefore, hafter] at hcount
  exact hcount

/-- A caller that is woken before its signal has fired is going to take a slot. -/
theorem heeding_put_awake (h : r.Sound) (hw : w ∈ r.waiters) (hasleep : w.posture = .asleep)
    (hcancelled : r.isCancelled w = false) : (r.put (w.turn .awake)).heeding = r.heeding + 1 := by
  have hcount := heeding_put h hw .awake
  have hbefore : r.heeds w = false := by simp [heeds, hasleep]
  have hafter : r.heeds (w.turn .awake) = true := by
    have hsame : r.isCancelled (w.turn .awake) = r.isCancelled w := rfl
    simp [heeds, hsame, hcancelled]
  rw [hbefore, hafter] at hcount
  exact hcount

/-- Somebody else sleeps, if somebody sleeps and this caller does not. -/
theorem asleep_put (posture : Posture) (hposture : posture ≠ .asleep)
    (h : ∃ v ∈ (r.put (w.turn posture)).waiters, v.posture = .asleep) :
    ∃ v ∈ r.waiters, v.posture = .asleep := by
  obtain ⟨v, hv, hasleep⟩ := h
  rcases mem_put hv with rfl | ⟨hold, -⟩
  · exact absurd hasleep hposture
  · exact ⟨v, hold, hasleep⟩

/-- What a look comes to. -/
theorem decision_cases (r : Room) (w : Waiter) (expired : Bool) :
    (r.decision w expired = some (.error .cancelled) ∧ r.isCancelled w = true) ∨
      (r.decision w expired = some (.ok ()) ∧ r.isCancelled w = false ∧
        r.limiter.hasFree = true) ∨
      (∃ t, r.decision w expired = some (.error (.timedOut t)) ∧ r.limiter.hasFree = false) ∨
      (r.decision w expired = none ∧ r.isCancelled w = false ∧ r.limiter.hasFree = false) := by
  rw [decision]
  cases hcancelled : r.isCancelled w with
  | true => exact .inl ⟨rfl, rfl⟩
  | false =>
    cases hfree : r.limiter.hasFree with
    | true => exact .inr (.inl ⟨rfl, rfl, rfl⟩)
    | false =>
      refine .inr (.inr ?_)
      cases w.limit with
      | none => exact .inr ⟨rfl, rfl, rfl⟩
      | some t =>
        cases expired with
        | true => exact .inl ⟨t, rfl, rfl⟩
        | false => exact .inr ⟨rfl, rfl, rfl⟩

theorem Sound.look (h : r.Sound) (hw : w ∈ r.waiters) (expired : Bool) :
    (r.look w expired).Sound := by
  have hfull : r.limiter.hasFree = false → r.limiter.capacity ≤ r.limiter.active := by
    intro hfree
    simpa [Limiter.hasFree] using hfree
  rcases decision_cases r w expired with
    ⟨hdecision, hcancelled⟩ | ⟨hdecision, -, -⟩ | ⟨t, hdecision, hfree⟩ |
      ⟨hdecision, hcancelled, hfree⟩ <;> simp only [Room.look, hdecision]
  · -- nobody has counted on a caller that is cancelled
    refine h.turn hw .leaving nofun fun _ hcovered hasleep => ?_
    have hslots := hcovered.slots (asleep_put .leaving nofun hasleep)
    have hbefore : r.heeds w = false := by simp [heeds, hcancelled]
    rw [heeding_put_eq h hw hbefore rfl]
    exact hslots
  · -- one caller less is going to take a slot, and one slot less is free
    refine h.turn hw .leaving nofun fun _ hcovered hasleep => ?_
    have hslots := hcovered.slots (asleep_put .leaving nofun hasleep)
    have hless := heeding_le_put h hw .leaving
    show r.limiter.capacity ≤ r.limiter.active + 1 + _
    omega
  · exact h.turn hw .leaving nofun fun _ _ _ => Nat.le_add_right_of_le (hfull hfree)
  · exact h.turn hw .asleep (fun _ => hcancelled) fun _ _ _ => Nat.le_add_right_of_le (hfull hfree)

theorem Sound.enter (h : r.Sound) (n : Nat) (expired : Bool) : (r.enter n expired).Sound := by
  rw [Room.enter]
  split
  · exact h
  · next w hstanding =>
    have hcounted : Sound { r with limiter := { r.limiter with waiting := r.limiter.waiting + 1 } } :=
      h.relimit rfl (Nat.le_refl _)
    exact hcounted.look (standing_eq_some hstanding).1 expired

theorem Sound.examine (h : r.Sound) (n : Nat) (expired : Bool) : (r.examine n expired).Sound := by
  rw [Room.examine]
  split
  · exact h
  · next w hstanding => exact h.look (standing_eq_some hstanding).1 expired

theorem Sound.expire (h : r.Sound) (n : Nat) : (r.expire n).Sound := by
  rw [Room.expire]
  split
  · exact h
  · next w hstanding =>
    obtain ⟨hw, -, hasleep⟩ := standing_eq_some hstanding
    split
    · refine h.turn hw .awake nofun fun halarms hcovered hothers => ?_
      have hslots := hcovered.slots (asleep_put .awake nofun hothers)
      rw [heeding_put_awake h hw hasleep (hcovered.quiet w hw hasleep)]
      exact Nat.le_succ_of_le hslots
    · exact h

/-- **A release keeps everybody covered**: one more slot is free, and one more caller is going to take
a slot, unless nobody sleeps or an alarm is still to ring. -/
theorem Sound.releaseWaking {number : Option Nat} (h : r.Sound) (hwoken : r.MayWake number) :
    (r.releaseWaking number).Sound := by
  rw [Room.releaseWaking]
  split
  · exact h
  · next hactive =>
    have hrelease : r.limiter.release =
        { r.limiter with active := r.limiter.active - 1, processed := r.limiter.processed + 1 } :=
      if_neg hactive
    cases number with
    | none => exact ⟨h.distinct, h.registered, h.rung, fun _ => .of_none_asleep hwoken⟩
    | some n =>
      obtain ⟨w, hstanding⟩ := hwoken
      obtain ⟨hw, -, hasleep⟩ := standing_eq_some hstanding
      have hwake : ({ r with limiter := r.limiter.release } : Room).wake n =
          { r.put (w.turn .awake) with limiter := r.limiter.release, left := r.left } := by
        rw [wake, show ({ r with limiter := r.limiter.release } : Room).standing n .asleep = some w
          from hstanding]
        rfl
      show (({ r with limiter := r.limiter.release } : Room).wake n).Sound
      rw [hwake]
      refine h.turn hw .awake nofun fun halarms hcovered hothers => ?_
      have hslots := hcovered.slots (asleep_put .awake nofun hothers)
      rw [heeding_put_awake h hw hasleep (hcovered.quiet w hw hasleep), hrelease]
      show r.limiter.capacity ≤ r.limiter.active - 1 + (r.heeding + 1)
      omega

/-! ### Everybody is woken -/

theorem alert_posture (r : Room) : ∀ w ∈ r.alert.waiters, w.posture ≠ .asleep := by
  intro w hw
  obtain ⟨v, -, rfl⟩ := List.mem_map.mp hw
  exact Waiter.woken_ne_asleep

/-- Whatever alarms are left when everybody has been woken, nobody is forgotten. -/
theorem Sound.alert {alarms : List String} (h : r.Sound) (halarms : alarms ⊆ r.alarms) :
    Sound { r.alert with alarms := alarms } where
  distinct := by
    have hnumbers : r.alert.waiters.map Waiter.number = r.waiters.map Waiter.number := by
      simp [Room.alert, Function.comp_def]
    show (r.alert.waiters.map Waiter.number).Nodup
    rw [hnumbers]
    exact h.distinct
  registered s hs := by
    refine (h.registered s hs).trans (Eq.symm ?_)
    show (r.waiters.map Waiter.woken).countP _ = _
    rw [List.countP_map]
    simp [Function.comp_def]
  rung s hs := h.rung s (halarms hs)
  covered _ := .of_none_asleep r.alert_posture

theorem Sound.ring (h : r.Sound) (s : String) : (r.ring s).Sound := by
  rw [Room.ring]
  split
  · exact h.alert (List.erase_subset ..)
  · exact h

theorem Sound.ringFor (h : r.Sound) (n : Nat) : (r.ringFor n).Sound := by
  rw [Room.ringFor]
  split
  · exact h
  · next w hstanding =>
    obtain ⟨hw, -, hringing⟩ := standing_eq_some hstanding
    have hw' : w ∈ r.alert.waiters :=
      List.mem_map.mpr ⟨w, hw, Waiter.woken_eq (by simp [hringing])⟩
    refine (h.alert (List.Subset.refl _)).turn hw' .arriving nofun fun _ _ hasleep => ?_
    obtain ⟨v, hv, hasleep⟩ := asleep_put .arriving nofun hasleep
    exact absurd hasleep (r.alert_posture v hv)

/-! ### Callers come and go, signals fire -/

/-- Nobody is forgotten by callers and signals that change nothing for those who wait. -/
theorem Covered.among {ws : List Waiter} {tokens : String → Token Unit} {alarms : List String}
    (h : r.Covered) (hasleep : ∀ v ∈ ws, v.posture = .asleep → v ∈ r.waiters)
    (hfired : ∀ v ∈ ws, (v.signal.any fun s => (tokens s).fired) = r.isCancelled v)
    (hheeding : r.heeding ≤ ws.countP r.heeds) :
    Covered { r with waiters := ws, tokens := tokens, alarms := alarms } where
  quiet v hv hv' := (hfired v hv).trans (h.quiet v (hasleep v hv hv') hv')
  slots := by
    rintro ⟨v, hv, hv'⟩
    have hslots := h.slots ⟨v, hasleep v hv hv', hv'⟩
    have hsame : ws.countP ({ r with waiters := ws, tokens := tokens, alarms := alarms } : Room).heeds =
        ws.countP r.heeds :=
      List.countP_congr fun x hx => by rw [heeds, heeds, isCancelled, hfired x hx]
    show r.limiter.capacity ≤ r.limiter.active + ws.countP _
    rw [hsame]
    omega

theorem fired_setToken (r : Room) {t : Token Unit} (h : t.fired = (r.tokens s).fired) (s' : String) :
    ((r.setToken s t).tokens s').fired = (r.tokens s').fired := by
  by_cases hsame : s' = s <;> simp [setToken, hsame, h]

theorem isCancelled_eq_of_fired {tokens : String → Token Unit}
    (h : ∀ s, (tokens s).fired = (r.tokens s).fired) (w : Waiter) :
    (w.signal.any fun s => (tokens s).fired) = r.isCancelled w := by
  simp only [isCancelled, h]

/-- A caller comes with an alarm, if it has a signal that has not fired. -/
theorem Sound.join {tokens : String → Token Unit} (h : r.Sound)
    (hnew : ∀ v ∈ r.waiters, v.number ≠ w.number) (hasleep : w.posture ≠ .asleep)
    (hfired : ∀ s, (tokens s).fired = (r.tokens s).fired)
    (hregistered : ∀ s, (tokens s).fired = false →
      (tokens s).callbacks.length =
        (r.tokens s).callbacks.length + if w.signal = some s then 1 else 0) :
    Sound { r with waiters := r.waiters ++ [w], tokens := tokens } where
  distinct := by
    rw [List.map_append, List.map_singleton, List.nodup_append]
    refine ⟨h.distinct, List.nodup_singleton _, ?_⟩
    rintro _ hnumber _ hlast rfl
    obtain ⟨v, hv, hnumber⟩ := List.mem_map.mp hnumber
    exact hnew v hv (hnumber.trans (List.mem_singleton.mp hlast))
  registered s hs := by
    rw [hregistered s hs, h.registered s ((hfired s).symm.trans hs), List.countP_append]
    simp [List.countP_cons]
  rung s hs := (hfired s).trans (h.rung s hs)
  covered halarms := by
    refine (h.covered halarms).among (fun v hv hv' => ?_)
      (fun v _ => isCancelled_eq_of_fired hfired v) ?_
    · rcases List.mem_append.mp hv with hv | hv
      · exact hv
      · rw [List.mem_singleton.mp hv] at hv'
        exact absurd hv' hasleep
    · rw [List.countP_append]
      exact Nat.le_add_right _ _

theorem arrive_of_signal (h : w.signal = some s) :
    r.arrive w =
      { r with
        waiters := r.waiters ++ [w.turn (if ((r.tokens s).register ()).2 then .ringing else .arriving)]
        tokens := (r.setToken s ((r.tokens s).register ()).1).tokens } := by
  simp only [arrive, h]
  rfl

theorem Sound.arrive (h : r.Sound) (hnew : ∀ v ∈ r.waiters, v.number ≠ w.number) :
    (r.arrive w).Sound := by
  cases hsignal : w.signal with
  | none =>
    simp only [Room.arrive, hsignal]
    exact h.join hnew nofun (fun _ => rfl) fun s _ => by simp [hsignal]
  | some s =>
    have hfired := r.fired_setToken ((r.tokens s).fired_register ())
    rw [arrive_of_signal hsignal]
    refine h.join hnew (by rw [Waiter.posture_turn]; split <;> nofun) hfired fun s' hs' => ?_
    rw [hfired] at hs'
    rw [Waiter.signal_turn, hsignal]
    by_cases hsame : s' = s
    · subst hsame
      simp [setToken, Token.callbacks_register hs']
    · simp [setToken, hsame, Ne.symm hsame]

/-- A caller that is leaving takes its alarm back. -/
theorem Sound.part {tokens : String → Token Unit} (h : r.Sound) (hw : w ∈ r.waiters)
    (hheeds : r.heeds w = false) (hfired : ∀ s, (tokens s).fired = (r.tokens s).fired)
    (hregistered : ∀ s, (tokens s).fired = false →
      (tokens s).callbacks.length + (if w.signal = some s then 1 else 0) =
        (r.tokens s).callbacks.length) :
    Sound { r with waiters := r.waiters.filter fun v => v.number ≠ w.number, tokens := tokens } where
  distinct := h.distinct.sublist (List.filter_sublist.map _)
  registered s hs := by
    have hold := h.registered s ((hfired s).symm.trans hs)
    rw [(perm_others h.distinct hw).countP_eq, List.countP_cons, ← hregistered s hs] at hold
    simp only [decide_eq_true_eq] at hold
    exact Nat.add_right_cancel hold
  rung s hs := (hfired s).trans (h.rung s hs)
  covered halarms := by
    refine (h.covered halarms).among (fun v hv _ => (List.mem_filter.mp hv).1)
      (fun v _ => isCancelled_eq_of_fired hfired v) ?_
    rw [heeding, (perm_others h.distinct hw).countP_eq, List.countP_cons, hheeds]
    exact Nat.le_refl _

theorem leave_of_signal (hstanding : r.standing n .leaving = some w) (h : w.signal = some s) :
    r.leave n =
      { r with
        waiters := r.waiters.filter fun v => v.number ≠ n
        tokens := (r.setToken s ((r.tokens s).remove ())).tokens } := by
  simp only [leave, hstanding, h]
  rfl

theorem Sound.leave (h : r.Sound) (n : Nat) : (r.leave n).Sound := by
  cases hstanding : r.standing n .leaving with
  | none =>
    rw [Room.leave, hstanding]
    exact h
  | some w =>
    obtain ⟨hw, rfl, hleaving⟩ := standing_eq_some hstanding
    have hheeds : r.heeds w = false := by simp [heeds, hleaving]
    cases hsignal : w.signal with
    | none =>
      simp only [Room.leave, hstanding, hsignal]
      exact h.part hw hheeds (fun _ => rfl) fun s _ => by simp [hsignal]
    | some s =>
      have hfired := r.fired_setToken (s := s) (t := (r.tokens s).remove ()) rfl
      rw [leave_of_signal hstanding hsignal]
      refine h.part hw hheeds hfired fun s' hs' => ?_
      rw [hfired] at hs'
      rw [hsignal]
      by_cases hsame : s' = s
      · -- the caller has an alarm to take back
        subst hsame
        have hpos : 0 < (r.tokens s').callbacks.length := by
          rw [h.registered s' hs']
          exact List.countP_pos_iff.mpr ⟨w, hw, decide_eq_true hsignal⟩
        obtain ⟨k, hk⟩ := List.length_pos_iff_exists_mem.mp hpos
        simp only [setToken, Token.remove, if_true, List.length_erase_of_mem hk]
        omega
      · simp [setToken, hsame, Ne.symm hsame]

/-- **The alarms of a signal that fires make up for the callers it cancels.** -/
theorem Sound.fire (h : r.Sound) (s : String) : (r.fire s).Sound := by
  cases hfired : (r.tokens s).fired with
  | true =>
    have hsame : r.fire s = r := by
      have htokens : (r.setToken s (r.tokens s)).tokens = r.tokens := by
        funext s'
        by_cases hs : s' = s <;> simp [setToken, hs]
      simp only [Room.fire, Token.fire_of_fired hfired, List.map_nil, List.append_nil, htokens]
      rfl
    rwa [hsame]
  | false =>
    have hstill : ∀ s', (r.tokens s').fired = true →
        ((r.setToken s ⟨true, []⟩).tokens s').fired = true := by
      intro s' hs'
      by_cases hsame : s' = s <;> simp [setToken, hsame, hs']
    simp only [Room.fire, Token.fire_of_quiet hfired]
    refine ⟨h.distinct, fun s' hs' => ?_, fun s' hs' => ?_, fun halarms => ?_⟩
    · have hother : s' ≠ s := by
        rintro rfl
        simp [setToken] at hs'
      simp only [setToken, if_neg hother] at hs' ⊢
      exact h.registered s' hs'
    · rcases List.mem_append.mp hs' with hold | hnew
      · exact hstill s' (h.rung s' hold)
      · obtain ⟨-, -, rfl⟩ := List.mem_map.mp hnew
        simp [setToken]
    · -- without an alarm to ring the signal has nobody who waits
      obtain ⟨hold, hnone⟩ := List.append_eq_nil_iff.mp halarms
      have hnobody : ∀ w ∈ r.waiters, w.signal ≠ some s := by
        have hregistered := h.registered s hfired
        rw [List.map_eq_nil_iff.mp hnone, List.length_nil, eq_comm, List.countP_eq_zero] at hregistered
        simpa using hregistered
      refine (h.covered hold).among (fun v hv _ => hv) (fun v hv => ?_) (Nat.le_refl _)
      rw [isCancelled]
      cases hsignal : v.signal with
      | none => rfl
      | some s' =>
        have hother : s' ≠ s := fun heq => hnobody v hv (heq ▸ hsignal)
        simp [setToken, hother]

/-! ### Any room -/

theorem Step.sound (hstep : Step r r') (h : r.Sound) : r'.Sound := by
  cases hstep with
  | arrive w hnew => exact h.arrive hnew
  | ringFor n => exact h.ringFor n
  | enter n expired => exact h.enter n expired
  | examine n expired => exact h.examine n expired
  | expire n => exact h.expire n
  | leave n => exact h.leave n
  | tryTake => exact h.tryTake
  | release number hwoken => exact h.releaseWaking hwoken
  | fire s => exact h.fire s
  | ring s => exact h.ring s

theorem Reachable.sound (h : r.Reachable) : r.Sound := by
  induction h with
  | empty capacity => exact sound_empty capacity
  | step _ hstep ih => exact hstep.sound ih

/-- Once every alarm has rung, a caller that sleeps beside a free slot has somebody to take it. -/
theorem Sound.exists_awake (h : r.Sound) (halarms : r.alarms = [])
    (hfree : r.limiter.hasFree = true) (hw : w ∈ r.waiters) (hasleep : w.posture = .asleep) :
    ∃ v ∈ r.waiters, v.posture = .awake := by
  have hslots := (h.covered halarms).slots ⟨w, hw, hasleep⟩
  have hactive : r.limiter.active < r.limiter.capacity := by simpa [Limiter.hasFree] using hfree
  have hheeding : 0 < r.heeding := by omega
  obtain ⟨v, hv, hheeds⟩ := List.countP_pos_iff.mp hheeding
  simp only [heeds, Bool.and_eq_true, decide_eq_true_eq] at hheeds
  exact ⟨v, hv, hheeds.1⟩

/-- **No wakeup is lost.** Whatever callers, releases and signals have done to a room: when a slot is
free and a caller sleeps, another caller has been woken and has not looked yet, or an alarm of a signal
that has fired is still to ring. -/
theorem no_lost_wakeup (h : r.Reachable) (hfree : r.limiter.hasFree = true) (hw : w ∈ r.waiters)
    (hasleep : w.posture = .asleep) :
    (∃ v ∈ r.waiters, v.number ≠ w.number ∧ v.posture = .awake) ∨
      ∃ s ∈ r.alarms, (r.tokens s).fired = true := by
  cases halarms : r.alarms with
  | cons s rest =>
    have hs : s ∈ r.alarms := halarms ▸ List.mem_cons_self
    exact .inr ⟨s, List.mem_cons_self, h.sound.rung s hs⟩
  | nil =>
    obtain ⟨v, hv, hawake⟩ := h.sound.exists_awake halarms hfree hw hasleep
    refine .inl ⟨v, hv, fun hnumber => ?_, hawake⟩
    rw [List.inj_on_of_nodup_map h.sound.distinct hv hw hnumber, hasleep] at hawake
    cases hawake

/-- One slot, which is taken, and two callers that sleep, the first with a signal. The slot is given
back, which wakes the first caller; then its signal fires, and it gives up. -/
def givenUp : Room :=
  let full := ({ limiter := .ofCapacity 1 } : Room).tryTake.2
  let one := (full.arrive { number := 1, signal := some "stop" }).enter 1 false
  let two := (one.arrive { number := 2 }).enter 2 false
  ((two.releaseWaking (some 1)).fire "stop").examine 1 false

theorem givenUp_reachable : givenUp.Reachable := by
  have hfull := (Reachable.empty 1).step .tryTake
  have hone := (hfull.step (.arrive { number := 1, signal := some "stop" } (by decide))).step
    (.enter 1 false)
  have htwo := (hone.step (.arrive { number := 2 } (by decide))).step (.enter 2 false)
  have hwoken := htwo.step (.release (some 1) ⟨_, rfl⟩)
  exact (hwoken.step (.fire "stop")).step (.examine 1 false)

/-- The slot is free, the second caller sleeps and nobody is awake, but an alarm is still to ring. -/
theorem no_lost_wakeup_givenUp :
    givenUp.Reachable ∧ givenUp.limiter.hasFree = true ∧
      { number := 2, posture := .asleep } ∈ givenUp.waiters ∧
      ((∃ v ∈ givenUp.waiters, v.number ≠ 2 ∧ v.posture = .awake) ∨
        ∃ s ∈ givenUp.alarms, (givenUp.tokens s).fired = true) ∧
      ¬ ∃ v ∈ givenUp.waiters, v.posture = .awake :=
  have hw : { number := 2, posture := .asleep } ∈ givenUp.waiters := by decide
  ⟨givenUp_reachable, by decide, hw, no_lost_wakeup givenUp_reachable (by decide) hw rfl, by decide⟩

/-! ### Rooms that have settled -/

theorem run_foldl {α : Type} {f : Room → α → Room} (hf : ∀ r x, ReflTransGen Step r (f r x))
    (xs : List α) (r : Room) : ReflTransGen Step r (xs.foldl f r) := by
  induction xs generalizing r with
  | nil => exact .refl
  | cons x xs ih => exact (hf r x).trans (ih (f r x))

theorem run_settle (r : Room) : ReflTransGen Step r r.settle := by
  have hring := run_foldl (fun r s => .single (.ring s)) r.alarms r
  refine hring.trans (run_foldl (fun r w => ?_) _ _)
  exact (ReflTransGen.single (.examine w.number false)).tail (.leave w.number)

/-- Ringing every alarm leaves none. -/
theorem alarms_foldl_ring (r : Room) (alarms : List String) (h : r.alarms = alarms) :
    (alarms.foldl ring r).alarms = [] := by
  induction alarms generalizing r with
  | nil => exact h
  | cons s rest ih =>
    refine ih (r.ring s) ?_
    rw [ring, h, if_pos List.mem_cons_self]
    exact List.erase_cons_head ..

theorem alarms_look (r : Room) (w : Waiter) (expired : Bool) :
    (r.look w expired).alarms = r.alarms := by
  rw [look]
  split <;> rfl

theorem alarms_review (r : Room) (n : Nat) (expired : Bool) :
    (r.review n expired).alarms = r.alarms := by
  have hexamine : (r.examine n expired).alarms = r.alarms := by
    rw [examine]
    split
    · rfl
    · exact r.alarms_look ..
  rw [review, leave]
  split
  · exact hexamine
  · split <;> exact hexamine

theorem mem_leave (h : v ∈ (r.leave n).waiters) : v ∈ r.waiters := by
  rw [leave] at h
  split at h
  · exact h
  · split at h <;> exact (List.mem_filter.mp h).1

/-- Who is awake after a caller has looked is another one. -/
theorem awake_look (hv : v ∈ (r.look w expired).waiters) (hawake : v.posture = .awake) :
    v ∈ r.waiters ∧ v.number ≠ w.number := by
  rw [look] at hv
  split at hv
  all_goals
    rcases mem_put hv with rfl | hother
    · cases hawake
    · exact hother

theorem awake_examine (hv : v ∈ (r.examine n expired).waiters) (hawake : v.posture = .awake) :
    v ∈ r.waiters ∧ v.number ≠ n := by
  rw [examine] at hv
  split at hv
  · next hnone =>
    refine ⟨hv, fun hnumber => ?_⟩
    have hnot := List.find?_eq_none.mp hnone v hv
    simp [hnumber, hawake] at hnot
  · next hstanding =>
    obtain ⟨-, rfl, -⟩ := standing_eq_some hstanding
    exact awake_look hv hawake

theorem awake_foldl_review (ws : List Waiter) (r : Room) :
    ∀ v ∈ (ws.foldl (fun r w => r.review w.number false) r).waiters, v.posture = .awake →
      v ∈ r.waiters ∧ v.number ∉ ws.map Waiter.number := by
  induction ws generalizing r with
  | nil => exact fun v hv _ => ⟨hv, List.not_mem_nil⟩
  | cons w ws ih =>
    intro v hv hawake
    obtain ⟨hreviewed, hrest⟩ := ih (r.review w.number false) v hv hawake
    obtain ⟨hold, hne⟩ := awake_examine (mem_leave hreviewed) hawake
    exact ⟨hold, by simpa [hne] using hrest⟩

theorem alarms_foldl_review (ws : List Waiter) (r : Room) :
    (ws.foldl (fun r w => r.review w.number false) r).alarms = r.alarms := by
  induction ws generalizing r with
  | nil => rfl
  | cons w ws ih => exact (ih _).trans (r.alarms_review ..)

/-- **In a room that has settled nobody sleeps beside a free slot.** -/
theorem settle_wakes (h : r.Reachable) (hfree : r.settle.limiter.hasFree = true) :
    ∀ w ∈ r.settle.waiters, w.posture ≠ .asleep := by
  intro w hw hasleep
  have hquiet : r.settle.alarms = [] :=
    (alarms_foldl_review ..).trans (r.alarms_foldl_ring _ rfl)
  obtain ⟨v, hv, hawake⟩ := (h.run r.run_settle).sound.exists_awake hquiet hfree hw hasleep
  obtain ⟨hold, hnew⟩ := awake_foldl_review _ _ v hv hawake
  exact hnew (List.mem_map_of_mem hold)

end Room

end RepoAudit
