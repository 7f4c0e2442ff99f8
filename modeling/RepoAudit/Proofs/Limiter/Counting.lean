import RepoAudit.Proofs.Limiter.Waking

/-!
# The counters of a limiter

What the counters of a limiter say about everything that has happened in its room, whoever came, gave
back or gave up, and in whatever order.

* `Room.Event`, `Room.after` — what may happen, as data; `Room.step_iff` — these are the steps;
* `Room.Tally`, `Room.Counted` — a room together with a count of what was asked of it;
* `Room.Counts` — what the counters mean; `Room.Counted.counts` — **they mean it in every room**.
-/

namespace RepoAudit

/-- Whether a caller left with a slot. -/
def Leaving.isGranted : Leaving → Bool
  | .ok () => true
  | .error _ => false

/-- Whether a caller is where it counts as waiting: it has come in, and has not looked for the last
time. -/
def Waiter.isInside (w : Waiter) : Bool := w.posture = .asleep || w.posture = .awake

namespace Room

variable {r r' : Room} {w : Waiter} {n : Nat} {expired : Bool}

/-! ### Events -/

/-- What may happen in a room. A release says whom it wakes. -/
inductive Event where
  | arrive (w : Waiter)
  | ringFor (n : Nat)
  | enter (n : Nat) (expired : Bool)
  | examine (n : Nat) (expired : Bool)
  | expire (n : Nat)
  | leave (n : Nat)
  | tryTake
  | release (number : Option Nat)
  | fire (s : String)
  | ring (s : String)

/-- The room after an event. -/
def after (r : Room) : Event → Room
  | .arrive w => r.arrive w
  | .ringFor n => r.ringFor n
  | .enter n expired => r.enter n expired
  | .examine n expired => r.examine n expired
  | .expire n => r.expire n
  | .leave n => r.leave n
  | .tryTake => r.tryTake.2
  | .release number => r.releaseWaking number
  | .fire s => r.fire s
  | .ring s => r.ring s

/-- Whether an event may happen: a caller has a number of its own, and a release wakes a sleeping
caller if there is one. -/
def Event.Possible (r : Room) : Event → Prop
  | .arrive w => ∀ v ∈ r.waiters, v.number ≠ w.number
  | .release number => r.MayWake number
  | _ => True

theorem step_iff : Step r r' ↔ ∃ e : Event, e.Possible r ∧ r' = r.after e := by
  constructor
  · intro h
    cases h with
    | arrive w hnew => exact ⟨.arrive w, hnew, rfl⟩
    | ringFor n => exact ⟨.ringFor n, trivial, rfl⟩
    | enter n expired => exact ⟨.enter n expired, trivial, rfl⟩
    | examine n expired => exact ⟨.examine n expired, trivial, rfl⟩
    | expire n => exact ⟨.expire n, trivial, rfl⟩
    | leave n => exact ⟨.leave n, trivial, rfl⟩
    | tryTake => exact ⟨.tryTake, trivial, rfl⟩
    | release number hwoken => exact ⟨.release number, hwoken, rfl⟩
    | fire s => exact ⟨.fire s, trivial, rfl⟩
    | ring s => exact ⟨.ring s, trivial, rfl⟩
  · rintro ⟨e, he, rfl⟩
    cases e with
    | arrive w => exact .arrive w he
    | ringFor n => exact .ringFor n
    | enter n expired => exact .enter n expired
    | examine n expired => exact .examine n expired
    | expire n => exact .expire n
    | leave n => exact .leave n
    | tryTake => exact .tryTake
    | release number => exact .release number he
    | fire s => exact .fire s
    | ring s => exact .ring s

/-! ### Counting -/

/-- How many callers have come in, how many slots have been taken without waiting, and how many
releases have found a slot taken. How callers left is kept by the room itself. -/
structure Tally where
  entered : Nat := 0
  taken : Nat := 0
  returned : Nat := 0

/-- The counts after an event. -/
def Tally.count (t : Tally) (r : Room) : Event → Tally
  | .enter n _ => if (r.standing n .arriving).isSome then { t with entered := t.entered + 1 } else t
  | .tryTake => if r.tryTake.1 then { t with taken := t.taken + 1 } else t
  | .release _ => if r.limiter.active = 0 then t else { t with returned := t.returned + 1 }
  | _ => t

/-- A room that comes of an empty one, with the counts of what has happened on the way. -/
inductive Counted : Room → Tally → Prop
  | empty (capacity : Int) : Counted { limiter := .ofCapacity capacity } {}
  | event {r : Room} {t : Tally} (h : Counted r t) (e : Event) (he : e.Possible r) :
      Counted (r.after e) (t.count r e)

theorem Counted.reachable {t : Tally} (h : Counted r t) : r.Reachable := by
  induction h with
  | empty capacity => exact .empty capacity
  | event _ e he ih => exact ih.step (step_iff.mpr ⟨e, he, rfl⟩)

theorem Reachable.exists_counted (h : r.Reachable) : ∃ t, Counted r t := by
  induction h with
  | empty capacity => exact ⟨_, .empty capacity⟩
  | step _ hstep ih =>
    obtain ⟨t, ht⟩ := ih
    obtain ⟨e, he, rfl⟩ := step_iff.mp hstep
    exact ⟨_, ht.event e he⟩

/-- What the counters of a limiter mean. -/
structure Counts (r : Room) (t : Tally) : Prop where
  within : r.limiter.active ≤ r.limiter.capacity
  active : r.limiter.active + t.returned =
    r.left.countP (fun x => x.2.isGranted) + t.taken
  processed : r.limiter.processed = t.returned
  waiting : r.limiter.waiting + r.left.length = t.entered
  inside : r.limiter.waiting = r.waiters.countP Waiter.isInside

theorem counts_empty (capacity : Int) : Counts { limiter := .ofCapacity capacity } {} :=
  ⟨Nat.zero_le _, rfl, rfl, rfl, rfl⟩

/-! ### What an event does to the counters -/

/-- A caller stands somewhere else; nothing that is counted changes. -/
theorem Counts.of_same {t : Tally} (h : Counts r t) (hlimiter : r'.limiter = r.limiter)
    (hleft : r'.left = r.left)
    (hinside : r'.waiters.countP Waiter.isInside = r.waiters.countP Waiter.isInside) :
    Counts r' t := by
  obtain ⟨hwithin, hactive, hprocessed, hwaiting, hin⟩ := h
  refine ⟨?_, ?_, ?_, ?_, ?_⟩ <;> rw [hlimiter]
  · exact hwithin
  · rwa [hleft]
  · exact hprocessed
  · rwa [hleft]
  · rw [hin, hinside]

theorem countP_isInside_put (h : r.Sound) (hw : w ∈ r.waiters) (posture : Posture)
    (hsame : (w.turn posture).isInside = w.isInside) :
    (r.put (w.turn posture)).waiters.countP Waiter.isInside = r.waiters.countP Waiter.isInside :=
  countP_put_eq h.distinct hw (w.number_turn posture) hsame

theorem isInside_woken (w : Waiter) : w.woken.isInside = w.isInside := by
  unfold Waiter.woken
  split
  · next hasleep => simp [Waiter.isInside, hasleep]
  · rfl

theorem countP_isInside_alert (r : Room) :
    r.alert.waiters.countP Waiter.isInside = r.waiters.countP Waiter.isInside := by
  simp only [alert, List.countP_map, Function.comp_def, isInside_woken]

theorem Counts.arrive {t : Tally} (h : Counts r t) (w : Waiter) : Counts (r.arrive w) t := by
  have hinside : ∀ posture, posture = .ringing ∨ posture = .arriving →
      (r.waiters ++ [w.turn posture]).countP Waiter.isInside =
        r.waiters.countP Waiter.isInside := by
    rintro posture (rfl | rfl) <;> simp [Waiter.isInside]
  cases hsignal : w.signal with
  | none =>
    simp only [Room.arrive, hsignal]
    exact h.of_same rfl rfl (hinside _ (.inr rfl))
  | some s =>
    rw [arrive_of_signal hsignal]
    refine h.of_same rfl rfl (hinside _ ?_)
    split
    · exact .inl rfl
    · exact .inr rfl

theorem Counts.ringFor {t : Tally} (h : Counts r t) (hsound : r.Sound) (n : Nat) :
    Counts (r.ringFor n) t := by
  rw [Room.ringFor]
  split
  · exact h
  · next w hstanding =>
    obtain ⟨hw, -, hringing⟩ := standing_eq_some hstanding
    have hw' : w ∈ r.alert.waiters :=
      List.mem_map.mpr ⟨w, hw, Waiter.woken_eq (by simp [hringing])⟩
    refine h.of_same rfl rfl (Eq.trans ?_ r.countP_isInside_alert)
    exact countP_isInside_put (hsound.alert (List.Subset.refl _)) hw' .arriving
      (by simp [Waiter.isInside, hringing])

/-- How many callers count as waiting besides one of them. -/
def othersInside (r : Room) (w : Waiter) : Nat :=
  (r.waiters.filter fun v => v.number ≠ w.number).countP Waiter.isInside

theorem countP_isInside_eq (h : r.Sound) (hw : w ∈ r.waiters) :
    r.waiters.countP Waiter.isInside = r.othersInside w + if w.isInside then 1 else 0 := by
  rw [othersInside, (perm_others h.distinct hw).countP_eq, List.countP_cons]

theorem countP_isInside_turn (h : r.Sound) (hw : w ∈ r.waiters) (posture : Posture) :
    (r.put (w.turn posture)).waiters.countP Waiter.isInside =
      r.othersInside w + if (w.turn posture).isInside then 1 else 0 := by
  rw [othersInside, (perm_put h.distinct hw (w.number_turn posture)).countP_eq, List.countP_cons]

/-- A caller that counts as waiting looks: it goes on waiting, or it leaves and is not counted any
more. It holds a slot exactly if it leaves with one. -/
theorem counts_look {t : Tally} (hsound : r.Sound) (hw : w ∈ r.waiters)
    (hwithin : r.limiter.active ≤ r.limiter.capacity)
    (hactive : r.limiter.active + t.returned = r.left.countP (fun x => x.2.isGranted) + t.taken)
    (hprocessed : r.limiter.processed = t.returned)
    (hwaiting : r.limiter.waiting + r.left.length = t.entered)
    (hinside : r.limiter.waiting = r.othersInside w + 1) (expired : Bool) :
    Counts (r.look w expired) t := by
  have hasleep : (r.put (w.turn .asleep)).waiters.countP Waiter.isInside = r.othersInside w + 1 :=
    countP_isInside_turn hsound hw .asleep
  have hleaving : (r.put (w.turn .leaving)).waiters.countP Waiter.isInside = r.othersInside w :=
    countP_isInside_turn hsound hw .leaving
  have hleft : ∀ leaving : Leaving, (r.left ++ [(w.number, leaving)]).countP (fun x => x.2.isGranted) =
      r.left.countP (fun x => x.2.isGranted) + if leaving.isGranted then 1 else 0 :=
    fun leaving => by rw [List.countP_append, List.countP_singleton]
  -- one caller less counts as waiting, and one more has left
  have hgone : ∀ leaving : Leaving,
      r.limiter.waiting - 1 + (r.left ++ [(w.number, leaving)]).length = t.entered := by
    intro leaving
    rw [List.length_append, List.length_singleton]
    omega
  have hrest : r.limiter.waiting - 1 = (r.put (w.turn .leaving)).waiters.countP Waiter.isInside := by
    omega
  rcases decision_cases r w expired with
    ⟨hdecision, -⟩ | ⟨hdecision, -, hfree⟩ | ⟨limit, hdecision, -⟩ | ⟨hdecision, -, -⟩
  all_goals simp only [Room.look, hdecision]
  · exact ⟨hwithin, hactive.trans (by rw [hleft]; rfl), hprocessed, hgone _, hrest⟩
  · have hroom : r.limiter.active < r.limiter.capacity := by simpa [Limiter.hasFree] using hfree
    refine ⟨hroom, ?_, hprocessed, hgone _, hrest⟩
    rw [hleft]
    show r.limiter.active + 1 + t.returned = r.left.countP (fun x => x.2.isGranted) + 1 + t.taken
    omega
  · exact ⟨hwithin, hactive.trans (by rw [hleft]; rfl), hprocessed, hgone _, hrest⟩
  · exact ⟨hwithin, hactive, hprocessed, hwaiting, hinside.trans hasleep.symm⟩

theorem Counts.enter {t : Tally} (h : Counts r t) (hsound : r.Sound) (n : Nat) (expired : Bool) :
    Counts (r.enter n expired) (t.count r (.enter n expired)) := by
  cases hstanding : r.standing n .arriving with
  | none => simpa [Room.enter, Tally.count, hstanding] using h
  | some w =>
    obtain ⟨hw, -, harriving⟩ := standing_eq_some hstanding
    have hcounted : Sound { r with limiter := { r.limiter with waiting := r.limiter.waiting + 1 } } :=
      hsound.relimit rfl (Nat.le_refl _)
    have hothers := countP_isInside_eq hsound hw
    simp only [Waiter.isInside, harriving, decide_false, Bool.or_false, reduceCtorEq,
      Bool.false_eq_true, if_false] at hothers
    simp only [Room.enter, Tally.count, hstanding, Option.isSome_some, if_true]
    have hwaiting : r.limiter.waiting + 1 + r.left.length = t.entered + 1 := by
      rw [Nat.add_right_comm, h.waiting]
    have hinside : r.limiter.waiting + 1 = r.othersInside w + 1 := by
      rw [h.inside, hothers, Nat.add_zero]
    exact counts_look (t := { t with entered := t.entered + 1 }) hcounted hw h.within h.active
      h.processed hwaiting hinside expired

theorem Counts.examine {t : Tally} (h : Counts r t) (hsound : r.Sound) (n : Nat) (expired : Bool) :
    Counts (r.examine n expired) t := by
  rw [Room.examine]
  split
  · exact h
  · next w hstanding =>
    obtain ⟨hw, -, hawake⟩ := standing_eq_some hstanding
    have hothers := countP_isInside_eq hsound hw
    simp only [Waiter.isInside, hawake, decide_true, Bool.or_true, if_true] at hothers
    exact counts_look hsound hw h.within h.active h.processed h.waiting
      (h.inside.trans hothers) expired

theorem Counts.expire {t : Tally} (h : Counts r t) (hsound : r.Sound) (n : Nat) :
    Counts (r.expire n) t := by
  rw [Room.expire]
  split
  · exact h
  · next w hstanding =>
    obtain ⟨hw, -, hasleep⟩ := standing_eq_some hstanding
    split
    · exact h.of_same rfl rfl (countP_isInside_put hsound hw .awake
        (by simp [Waiter.isInside, hasleep]))
    · exact h

theorem Counts.leave {t : Tally} (h : Counts r t) (hsound : r.Sound) (n : Nat) :
    Counts (r.leave n) t := by
  cases hstanding : r.standing n .leaving with
  | none =>
    rw [Room.leave, hstanding]
    exact h
  | some w =>
    obtain ⟨hw, rfl, hleaving⟩ := standing_eq_some hstanding
    have hothers := countP_isInside_eq hsound hw
    simp only [Waiter.isInside, hleaving, decide_false, Bool.or_false, reduceCtorEq,
      Bool.false_eq_true, if_false, Nat.add_zero] at hothers
    cases hsignal : w.signal with
    | none =>
      simp only [Room.leave, hstanding, hsignal]
      exact h.of_same rfl rfl hothers.symm
    | some s =>
      rw [leave_of_signal hstanding hsignal]
      exact h.of_same rfl rfl hothers.symm

/-- A slot that is free is taken at once. -/
theorem Counts.tryTake {t : Tally} (h : Counts r t) :
    Counts r.tryTake.2 (t.count r .tryTake) := by
  cases hfree : r.limiter.hasFree with
  | false => simpa [Room.tryTake, Limiter.tryTake, Tally.count, hfree] using h
  | true =>
    have hroom : r.limiter.active < r.limiter.capacity := by simpa [Limiter.hasFree] using hfree
    simp only [Room.tryTake, Limiter.tryTake, Tally.count, hfree, if_true]
    refine ⟨hroom, ?_, h.processed, h.waiting, h.inside⟩
    show r.limiter.active + 1 + t.returned =
      r.left.countP (fun x => x.2.isGranted) + (t.taken + 1)
    rw [Nat.add_right_comm, h.active, Nat.add_assoc]

/-- Waking a caller changes nothing that is counted, whatever the slots are. -/
theorem Counts.wake {t : Tally} (h : Counts r t)
    (hdistinct : (r.waiters.map Waiter.number).Nodup) (n : Nat) : Counts (r.wake n) t := by
  rw [Room.wake]
  split
  · exact h
  · next w hstanding =>
    obtain ⟨hw, -, hasleep⟩ := standing_eq_some hstanding
    exact h.of_same rfl rfl (countP_put_eq hdistinct hw (w.number_turn .awake)
      (by simp [Waiter.isInside, hasleep]))

/-- A release gives back a slot that is taken, and counts it; otherwise it does nothing. -/
theorem Counts.releaseWaking {t : Tally} (h : Counts r t) (hsound : r.Sound) (number : Option Nat) :
    Counts (r.releaseWaking number) (t.count r (.release number)) := by
  rw [Room.releaseWaking, Tally.count]
  split
  · exact h
  · next hactive =>
    have hreleased : Counts { r with limiter := r.limiter.release }
        { t with returned := t.returned + 1 } := by
      rw [Limiter.release, if_neg hactive]
      refine ⟨Nat.le_trans (Nat.sub_le ..) h.within, ?_, congrArg (· + 1) h.processed, h.waiting, h.inside⟩
      have hcount := h.active
      show r.limiter.active - 1 + (t.returned + 1) =
        r.left.countP (fun x => x.2.isGranted) + t.taken
      omega
    cases number with
    | none => exact hreleased
    | some n => exact hreleased.wake hsound.distinct n

theorem Counts.fire {t : Tally} (h : Counts r t) (s : String) : Counts (r.fire s) t :=
  h.of_same rfl rfl rfl

theorem Counts.ring {t : Tally} (h : Counts r t) (s : String) : Counts (r.ring s) t := by
  rw [Room.ring]
  split
  · exact h.of_same rfl rfl r.countP_isInside_alert
  · exact h

/-- **The counters mean the same after every event.** -/
theorem Counts.after {t : Tally} (h : Counts r t) (hsound : r.Sound) (e : Event) :
    Counts (r.after e) (t.count r e) := by
  cases e with
  | arrive w => exact h.arrive w
  | ringFor n => exact h.ringFor hsound n
  | enter n expired => exact h.enter hsound n expired
  | examine n expired => exact h.examine hsound n expired
  | expire n => exact h.expire hsound n
  | leave n => exact h.leave hsound n
  | tryTake => exact h.tryTake
  | release number => exact h.releaseWaking hsound number
  | fire s => exact h.fire s
  | ring s => exact h.ring s

theorem Counted.counts {t : Tally} (h : Counted r t) : Counts r t := by
  induction h with
  | empty capacity => exact counts_empty capacity
  | event hbefore e _ ih => exact ih.after hbefore.reachable.sound e

end Room

end RepoAudit
