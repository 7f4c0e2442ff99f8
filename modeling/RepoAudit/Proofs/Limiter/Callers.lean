import RepoAudit.Proofs.Limiter.Waking

/-!
# Who calls

Whether a caller sleeps or has been woken makes no difference to who calls in a room, and who of them
is leaving. What each step does to that, and to the slots, is all that a client of the room needs.

* `Room.roll` — the callers, told apart only by whether they are leaving;
* `Room.roll_arrive`, `Room.mem_roll_look`, `Room.mem_roll_leave` — a caller comes, looks for the last
  time and goes; every other step leaves the roll alone;
* `Room.Looks`, `Room.Looked` — a look of a caller, the first or a later one, and what comes of it.
-/

namespace RepoAudit

/-- A caller that is leaving, or is not. -/
def Waiter.card (w : Waiter) : Waiter := w.turn (if w.posture = .leaving then .leaving else .arriving)

variable {w v : Waiter}

theorem Waiter.card_of_ne (h : w.posture ≠ .leaving) : w.card = w.turn .arriving := by
  rw [card, if_neg h]

theorem Waiter.posture_card : w.card.posture = .leaving ↔ w.posture = .leaving := by
  by_cases h : w.posture = .leaving <;> simp [card, h]

theorem Waiter.card_woken (w : Waiter) : w.woken.card = w.card := by
  unfold woken
  split
  · next hasleep => simp [card, turn, hasleep]
  · rfl

namespace Room

variable {r r' : Room} {n : Nat} {expired : Bool} {s : String} {posture : Posture}

/-- The callers of a room, leaving or not. -/
def roll (r : Room) : List Waiter := r.waiters.map Waiter.card

theorem mem_roll : v ∈ r.roll ↔ ∃ w ∈ r.waiters, w.card = v := List.mem_map

theorem Sound.of_no_waiters (hwaiters : r.waiters = []) (htokens : ∀ s, r.tokens s = {})
    (halarms : r.alarms = []) : r.Sound where
  distinct := by rw [hwaiters]; exact .nil
  registered s _ := by rw [hwaiters, htokens]; rfl
  rung s hs := by rw [halarms] at hs; exact absurd hs List.not_mem_nil
  covered _ := .of_none_asleep fun w hw => by rw [hwaiters] at hw; exact absurd hw List.not_mem_nil

/-! ### Nobody comes and nobody goes -/

/-- A caller that is not leaving turns to something else than leaving. -/
theorem roll_put (hw : w ∈ r.waiters) (hdistinct : (r.waiters.map Waiter.number).Nodup)
    (hbefore : w.posture ≠ .leaving) (hafter : posture ≠ .leaving) :
    (r.put (w.turn posture)).roll = r.roll := by
  simp only [roll, put, List.map_map]
  refine List.map_congr_left fun v hv => ?_
  by_cases hnumber : v.number = w.number
  · obtain rfl := List.inj_on_of_nodup_map hdistinct hv hw hnumber
    simp only [Function.comp_apply, Waiter.number_turn, if_true]
    rw [Waiter.card_of_ne hbefore, Waiter.card_of_ne hafter]
    rfl
  · simp [hnumber]

theorem roll_alert (r : Room) : r.alert.roll = r.roll := by
  simp only [roll, alert, List.map_map, Function.comp_def, Waiter.card_woken]

theorem roll_ring (r : Room) (s : String) : (r.ring s).roll = r.roll := by
  rw [ring]
  split
  · exact r.roll_alert
  · rfl

theorem roll_ringFor (h : r.Sound) (n : Nat) : (r.ringFor n).roll = r.roll := by
  rw [ringFor]
  split
  · rfl
  · next w hstanding =>
    obtain ⟨hw, -, hringing⟩ := standing_eq_some hstanding
    have hw' : w ∈ r.alert.waiters :=
      List.mem_map.mpr ⟨w, hw, Waiter.woken_eq (by simp [hringing])⟩
    have hdistinct := (h.alert (List.Subset.refl _)).distinct
    exact (roll_put hw' hdistinct (by simp [hringing]) (by decide)).trans r.roll_alert

theorem roll_wake (hdistinct : (r.waiters.map Waiter.number).Nodup) (n : Nat) :
    (r.wake n).roll = r.roll := by
  rw [wake]
  split
  · rfl
  · next w hstanding =>
    obtain ⟨hw, -, hasleep⟩ := standing_eq_some hstanding
    exact roll_put hw hdistinct (by simp [hasleep]) (by decide)

theorem roll_releaseWaking (h : r.Sound) (number : Option Nat) :
    (r.releaseWaking number).roll = r.roll := by
  rw [releaseWaking]
  split
  · rfl
  · cases number with
    | none => rfl
    | some n => exact roll_wake (r := { r with limiter := r.limiter.release }) h.distinct n

/-- A caller that goes on waiting stays on the roll. -/
theorem roll_look_none (h : r.Sound) (hw : w ∈ r.waiters) (hposture : w.posture ≠ .leaving)
    (hdecision : r.decision w expired = none) : (r.look w expired).roll = r.roll := by
  simp only [look, hdecision]
  exact roll_put hw h.distinct hposture (by decide)

/-! ### Somebody comes or goes -/

theorem roll_arrive (r : Room) (w : Waiter) : (r.arrive w).roll = r.roll ++ [w.turn .arriving] := by
  cases hsignal : w.signal with
  | none => simp only [arrive, hsignal, roll, List.map_append]; rfl
  | some s =>
    rw [arrive_of_signal hsignal]
    simp only [roll, List.map_append, List.map_singleton]
    split <;> rfl

/-- A caller that has looked for the last time is leaving; everybody else is where they were. -/
theorem mem_roll_look {leaving : Leaving} (h : r.Sound) (hw : w ∈ r.waiters)
    (hdecision : r.decision w expired = some leaving) :
    v ∈ (r.look w expired).roll ↔ v ∈ r.roll ∧ v.number ≠ w.number ∨ v = w.turn .leaving := by
  have hroll : (r.look w expired).roll = (r.put (w.turn .leaving)).roll := by
    simp only [look, hdecision, roll]
  rw [hroll, roll, ((perm_put h.distinct hw (w.number_turn .leaving)).map _).mem_iff, List.map_cons,
    List.mem_cons, or_comm]
  refine or_congr ?_ Iff.rfl
  simp only [mem_roll, List.mem_map, List.mem_filter, decide_eq_true_eq]
  constructor
  · rintro ⟨u, ⟨hu, hne⟩, rfl⟩
    exact ⟨⟨u, hu, rfl⟩, hne⟩
  · rintro ⟨⟨u, hu, rfl⟩, hne⟩
    exact ⟨u, ⟨hu, hne⟩, rfl⟩

theorem waiters_leave (h : r.standing n .leaving = some w) :
    (r.leave n).waiters = r.waiters.filter fun v => v.number ≠ n := by
  cases hsignal : w.signal with
  | none => simp only [leave, h, hsignal]
  | some s => rw [leave_of_signal h hsignal]

theorem mem_roll_leave (h : r.standing n .leaving = some w) :
    v ∈ (r.leave n).roll ↔ v ∈ r.roll ∧ v.number ≠ n := by
  simp only [roll, waiters_leave h, List.mem_map, List.mem_filter, decide_eq_true_eq]
  constructor
  · rintro ⟨u, ⟨hu, hne⟩, rfl⟩
    exact ⟨⟨u, hu, rfl⟩, hne⟩
  · rintro ⟨⟨u, hu, rfl⟩, hne⟩
    exact ⟨u, ⟨hu, hne⟩, rfl⟩

/-! ### Slots -/

theorem limiter_arrive (r : Room) (w : Waiter) : (r.arrive w).limiter = r.limiter := by
  rw [arrive]
  split <;> rfl

theorem limiter_ringFor (r : Room) (n : Nat) : (r.ringFor n).limiter = r.limiter := by
  rw [ringFor]
  split <;> rfl

theorem limiter_leave (r : Room) (n : Nat) : (r.leave n).limiter = r.limiter := by
  rw [leave]
  split
  · rfl
  · split <;> rfl

theorem limiter_ring (r : Room) (s : String) : (r.ring s).limiter = r.limiter := by
  rw [ring]
  split <;> rfl

theorem limiter_wake (r : Room) (n : Nat) : (r.wake n).limiter = r.limiter := by
  rw [wake]
  split <;> rfl

theorem limiter_releaseWaking (h : 0 < r.limiter.active) (number : Option Nat) :
    (r.releaseWaking number).limiter = r.limiter.release := by
  rw [releaseWaking, if_neg (Nat.ne_of_gt h)]
  cases number with
  | none => rfl
  | some n => exact limiter_wake ..

/-! ### A look -/

/-- A caller looks for the first time, or again after it has been woken. -/
inductive Looks (r : Room) (n : Nat) (w : Waiter) : Room → Prop
  | first (h : r.standing n .arriving = some w) : Looks r n w (r.enter n false)
  | again (h : r.standing n .awake = some w) : Looks r n w (r.examine n false)

/-- What comes of a look of a caller: it goes on waiting, or it is leaving; it takes a slot exactly
if it leaves with one, and only a slot that is free. -/
structure Looked (r : Room) (w : Waiter) (expired : Bool) (r' : Room) : Prop where
  stays : r.decision w expired = none → r'.roll = r.roll
  leaves : ∀ {leaving}, r.decision w expired = some leaving → ∀ v,
    v ∈ r'.roll ↔ v ∈ r.roll ∧ v.number ≠ w.number ∨ v = w.turn .leaving
  capacity : r'.limiter.capacity = r.limiter.capacity
  processed : r'.limiter.processed = r.limiter.processed
  takes : r.decision w expired = some (.ok ()) →
    r.limiter.active < r.limiter.capacity ∧ r'.limiter.active = r.limiter.active + 1
  spares : r.decision w expired ≠ some (.ok ()) → r'.limiter.active = r.limiter.active

theorem looked_look (h : r.Sound) (hw : w ∈ r.waiters) (hposture : w.posture ≠ .leaving)
    (expired : Bool) : Looked r w expired (r.look w expired) := by
  refine ⟨roll_look_none h hw hposture, fun hdecision v => mem_roll_look h hw hdecision,
    ?_, ?_, fun hdecision => ⟨?_, ?_⟩, fun hdecision => ?_⟩
  · rw [look]
    cases hdecision : r.decision w expired with
    | none => rfl
    | some leaving => cases leaving <;> rfl
  · rw [look]
    cases hdecision : r.decision w expired with
    | none => rfl
    | some leaving => cases leaving <;> rfl
  · rcases decision_cases r w expired with ⟨h', -⟩ | ⟨-, -, hfree⟩ | ⟨_, h', -⟩ | ⟨h', -, -⟩
    · simp [hdecision] at h'
    · simpa [Limiter.hasFree] using hfree
    · simp [hdecision] at h'
    · simp [hdecision] at h'
  · simp only [look, hdecision, Limiter.take]
  · rw [look]
    cases hwhat : r.decision w expired with
    | none => rfl
    | some leaving =>
      cases leaving with
      | ok => exact absurd hwhat hdecision
      | error e => rfl

theorem Looks.mem (h : r.Looks n w r') : w ∈ r.waiters ∧ w.number = n ∧ w.posture ≠ .leaving := by
  cases h with
  | first h =>
    obtain ⟨hw, hnumber, hposture⟩ := standing_eq_some h
    exact ⟨hw, hnumber, by simp [hposture]⟩
  | again h =>
    obtain ⟨hw, hnumber, hposture⟩ := standing_eq_some h
    exact ⟨hw, hnumber, by simp [hposture]⟩

theorem Looks.step (h : r.Looks n w r') : Step r r' := by
  cases h with
  | first _ => exact .enter n false
  | again _ => exact .examine n false

/-- Counting as waiting makes no difference to what a look comes to. -/
theorem Looks.looked (h : r.Sound) (hlooks : r.Looks n w r') : Looked r w false r' := by
  obtain ⟨hw, -, hposture⟩ := hlooks.mem
  cases hlooks with
  | first hstanding =>
    rw [enter, hstanding]
    have hcounted : Sound { r with limiter := { r.limiter with waiting := r.limiter.waiting + 1 } } :=
      h.relimit rfl (Nat.le_refl _)
    obtain ⟨hstays, hleaves, hcapacity, hprocessed, htakes, hspares⟩ :=
      looked_look hcounted hw hposture false
    exact ⟨hstays, hleaves, hcapacity, hprocessed, htakes, hspares⟩
  | again hstanding =>
    rw [examine, hstanding]
    exact looked_look h hw hposture false

end Room

end RepoAudit
