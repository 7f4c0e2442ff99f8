import Mathlib.Algebra.BigOperators.Group.List.Basic
import Mathlib.Algebra.GroupWithZero.Nat
import Mathlib.Algebra.Order.BigOperators.Group.List
import RepoAudit.Proofs.Limiter.Callers

/-!
# How much can still happen in a room

Callers wake and fall asleep again, and an alarm wakes all of them at once. That cannot go on for
ever when nobody comes any more: every alarm rings once, and every release wakes one caller. What
shows it is a number that each step but an arrival and a release lowers.

* `Room.charge` — the number, given a bound `k` on how many callers there are;
* `Room.charge_arrive`, `Room.charge_releaseWaking` — what a caller and a release bring in;
* `Room.charge_ring`, `Room.charge_ringFor`, `Room.Looks.charge`, `Room.charge_leave` — **every other
  step of the callers and the alarms uses some of it up**;
* `Room.charge_fire` — a signal that fires only turns the alarms of its callers into alarms to ring.
-/

namespace RepoAudit

/-- How much a caller can still do where it stands: look, fall asleep, leave, and first of all ring an
alarm for as many callers as there may be. -/
def Posture.weight (k : Nat) : Posture → Nat
  | .ringing => 4 + k
  | .arriving => 4
  | .awake => 3
  | .asleep => 2
  | .leaving => 1

namespace Room

variable {r r' : Room} {w v : Waiter} {n k : Nat} {s : String} {posture : Posture}

/-- Whether a caller has an alarm registered with a signal that has not fired. -/
def hasAlarm (r : Room) (w : Waiter) : Bool := w.signal.any fun s => !(r.tokens s).fired

/-- What a caller can still do, its alarm included. -/
def burden (k : Nat) (r : Room) (w : Waiter) : Nat :=
  w.posture.weight k + bif r.hasAlarm w then k else 0

/-- What can still happen in a room: the alarms that are to ring, and what the callers can do. -/
def charge (k : Nat) (r : Room) : Nat :=
  r.alarms.length * k + (r.waiters.map (r.burden k)).sum

/-! ### Burdens -/

theorem burden_congr (h : ∀ s, (r'.tokens s).fired = (r.tokens s).fired) (w : Waiter) :
    r'.burden k w = r.burden k w := by
  simp only [burden, hasAlarm, h]

theorem hasAlarm_turn (r : Room) (w : Waiter) (posture : Posture) :
    r.hasAlarm (w.turn posture) = r.hasAlarm w := rfl

theorem burden_woken_le (r : Room) (w : Waiter) : r.burden k w.woken ≤ r.burden k w + 1 := by
  unfold Waiter.woken
  split
  · next hasleep => simp only [burden, hasAlarm_turn, hasleep, Waiter.posture_turn, Posture.weight]; omega
  · exact Nat.le_succ _

/-- The burdens of the callers, when one of them stands somewhere else. -/
theorem sum_burden_put (h : r.Sound) (hw : w ∈ r.waiters) (posture : Posture) :
    ((r.put (w.turn posture)).waiters.map (r.burden k)).sum + w.posture.weight k =
      (r.waiters.map (r.burden k)).sum + posture.weight k := by
  have hafter := (perm_put h.distinct hw (w.number_turn posture)).map (r.burden k)
  have hbefore := (perm_others h.distinct hw).map (r.burden k)
  rw [hafter.sum_eq, hbefore.sum_eq, List.map_cons, List.map_cons, List.sum_cons, List.sum_cons]
  simp only [burden, hasAlarm_turn, Waiter.posture_turn]
  omega

/-- Waking everybody adds one for each caller at most. -/
theorem sum_burden_alert (r : Room) :
    (r.alert.waiters.map (r.burden k)).sum ≤
      (r.waiters.map (r.burden k)).sum + r.waiters.length := by
  have hle : ∀ ws : List Waiter, ((ws.map Waiter.woken).map (r.burden k)).sum ≤
      (ws.map (r.burden k)).sum + ws.length := by
    intro ws
    induction ws with
    | nil => exact Nat.le_refl _
    | cons w ws ih =>
      have hwoken := burden_woken_le (k := k) r w
      simp only [List.map_cons, List.sum_cons, List.length_cons]
      omega
  exact hle r.waiters

/-! ### Signals that stay as they are -/

theorem fired_arrive (r : Room) (w : Waiter) (s : String) :
    ((r.arrive w).tokens s).fired = (r.tokens s).fired := by
  cases hsignal : w.signal with
  | none => simp only [arrive, hsignal]
  | some s' =>
    rw [arrive_of_signal hsignal]
    exact r.fired_setToken ((r.tokens s').fired_register ()) s

theorem tokens_look (r : Room) (w : Waiter) (expired : Bool) :
    (r.look w expired).tokens = r.tokens := by
  rw [look]
  split <;> rfl

theorem Looks.tokens (h : r.Looks n w r') : r'.tokens = r.tokens := by
  cases h with
  | first hstanding =>
    rw [enter, hstanding]
    exact tokens_look ..
  | again hstanding =>
    rw [examine, hstanding]
    exact tokens_look ..

theorem tokens_ringFor (r : Room) (n : Nat) : (r.ringFor n).tokens = r.tokens := by
  rw [ringFor]
  split <;> rfl

theorem fired_leave (r : Room) (n : Nat) (s : String) :
    ((r.leave n).tokens s).fired = (r.tokens s).fired := by
  cases hstanding : r.standing n .leaving with
  | none => rw [leave, hstanding]
  | some w =>
    cases hsignal : w.signal with
    | none => simp only [leave, hstanding, hsignal]
    | some s' =>
      rw [leave_of_signal hstanding hsignal]
      exact r.fired_setToken (s := s') (t := (r.tokens s').remove ()) rfl s

theorem tokens_wake (r : Room) (n : Nat) : (r.wake n).tokens = r.tokens := by
  rw [wake]
  split <;> rfl

theorem tokens_releaseWaking (r : Room) (number : Option Nat) :
    (r.releaseWaking number).tokens = r.tokens := by
  rw [releaseWaking]
  split
  · rfl
  · cases number with
    | none => rfl
    | some n => exact tokens_wake ..

theorem tokens_ring (r : Room) (s : String) : (r.ring s).tokens = r.tokens := by
  rw [ring]
  split <;> rfl

/-! ### What the steps do to the charge -/

/-- A caller comes with what it can do and with an alarm. -/
theorem charge_arrive (r : Room) (w : Waiter) :
    (r.arrive w).charge k ≤ r.charge k + (4 + k) := by
  have hsame : ∀ v, (r.arrive w).burden k v = r.burden k v :=
    burden_congr (r.fired_arrive w)
  have hadd : ∀ posture, r.burden k (w.turn posture) ≤ 4 + k →
      ((r.waiters ++ [w.turn posture]).map ((r.arrive w).burden k)).sum ≤
        (r.waiters.map (r.burden k)).sum + (4 + k) := by
    intro posture hle
    rw [List.map_append, List.sum_append, List.map_singleton, List.sum_singleton, hsame,
      List.map_congr_left fun v _ => hsame v]
    omega
  cases hsignal : w.signal with
  | none =>
    have hle : r.burden k (w.turn .arriving) ≤ 4 + k := by
      simp [burden, hasAlarm, hsignal, Posture.weight]
    have hsum := hadd .arriving hle
    have harrive : r.arrive w = { r with waiters := r.waiters ++ [w.turn .arriving] } := by
      simp only [arrive, hsignal]
    rw [harrive] at hsum ⊢
    exact (Nat.add_le_add_left hsum _).trans_eq (Nat.add_assoc ..).symm
  | some s =>
    have hle : r.burden k
        (w.turn (if ((r.tokens s).register ()).2 then .ringing else .arriving)) ≤ 4 + k := by
      cases hfired : (r.tokens s).fired <;>
        simp [burden, hasAlarm, hsignal, Token.register, hfired, Posture.weight]
    have hsum := hadd _ hle
    rw [arrive_of_signal hsignal] at hsum ⊢
    exact (Nat.add_le_add_left hsum _).trans_eq (Nat.add_assoc ..).symm

/-- A look uses something up, whatever it comes to. -/
theorem charge_look (h : r.Sound) (hw : w ∈ r.waiters) (expired : Bool)
    (hposture : 3 ≤ w.posture.weight k) :
    (r.look w expired).charge k < r.charge k := by
  have hput : ∀ posture : Posture, posture.weight k < 3 →
      ((r.put (w.turn posture)).waiters.map (r.burden k)).sum <
        (r.waiters.map (r.burden k)).sum := by
    intro posture hlt
    have hsum := sum_burden_put (k := k) h hw posture
    omega
  have hsame : ∀ v, (r.look w expired).burden k v = r.burden k v :=
    burden_congr fun s => by rw [tokens_look]
  rw [charge, charge, List.map_congr_left fun v _ => hsame v, alarms_look]
  refine Nat.add_lt_add_left ?_ _
  rw [look]
  split
  · exact hput .asleep (Nat.le_refl 3)
  · exact hput .leaving (Nat.le_succ 2)

theorem Looks.charge (h : r.Sound) (hlooks : r.Looks n w r') :
    r'.charge k < r.charge k := by
  have hw := hlooks.mem.1
  cases hlooks with
  | first hstanding =>
    have hposture := (standing_eq_some hstanding).2.2
    rw [enter, hstanding]
    have hcounted : Sound { r with limiter := { r.limiter with waiting := r.limiter.waiting + 1 } } :=
      h.relimit rfl (Nat.le_refl _)
    exact charge_look hcounted hw false (by rw [hposture]; exact Nat.le_succ 3)
  | again hstanding =>
    have hposture := (standing_eq_some hstanding).2.2
    rw [examine, hstanding]
    exact charge_look h hw false (by rw [hposture]; exact Nat.le_refl 3)

/-- A caller that rings its own alarm has paid for everybody it wakes. -/
theorem charge_ringFor (h : r.Sound) (hk : r.waiters.length < k)
    (hstanding : r.standing n .ringing = some w) :
    (r.ringFor n).charge k < r.charge k := by
  obtain ⟨hw, -, hringing⟩ := standing_eq_some hstanding
  have hw' : w ∈ r.alert.waiters := List.mem_map.mpr ⟨w, hw, Waiter.woken_eq (by simp [hringing])⟩
  have hput := sum_burden_put (k := k) (h.alert (List.Subset.refl _)) hw' .arriving
  have halert := sum_burden_alert (k := k) r
  simp only [hringing, Posture.weight] at hput
  rw [ringFor, hstanding]
  show r.alarms.length * k + ((r.alert.put (w.turn .arriving)).waiters.map
    (r.burden k)).sum < r.alarms.length * k + (r.waiters.map (r.burden k)).sum
  change ((r.alert.put (w.turn .arriving)).waiters.map (r.burden k)).sum + _ =
    (r.alert.waiters.map (r.burden k)).sum + _ at hput
  omega

/-- A caller that leaves takes with it what it could still do. -/
theorem charge_leave (h : r.Sound) (hstanding : r.standing n .leaving = some w) :
    (r.leave n).charge k < r.charge k := by
  obtain ⟨hw, rfl, hleaving⟩ := standing_eq_some hstanding
  have hsame : ∀ v, (r.leave w.number).burden k v = r.burden k v :=
    burden_congr (r.fired_leave w.number)
  have halarms : (r.leave w.number).alarms = r.alarms := by
    rw [leave]
    split
    · rfl
    · split <;> rfl
  have hothers := ((perm_others h.distinct hw).map (r.burden k)).sum_eq
  have hburden : 1 ≤ r.burden k w := by
    simp only [burden, hleaving, Posture.weight]
    omega
  rw [charge, charge, List.map_congr_left fun v _ => hsame v, halarms, waiters_leave hstanding,
    hothers, List.map_cons, List.sum_cons]
  omega

/-- A release wakes one caller at most. -/
theorem charge_releaseWaking (h : r.Sound) (number : Option Nat) :
    (r.releaseWaking number).charge k ≤ r.charge k + 1 := by
  rw [releaseWaking]
  split
  · exact Nat.le_succ _
  · cases number with
    | none => exact Nat.le_succ _
    | some n =>
      cases hstanding : r.standing n .asleep with
      | none =>
        have hnobody : ({ r with limiter := r.limiter.release } : Room).standing n .asleep = none :=
          hstanding
        simp only [wake, hnobody]
        exact Nat.le_succ _
      | some w =>
        obtain ⟨hw, -, hasleep⟩ := standing_eq_some hstanding
        have hput := sum_burden_put (k := k) h hw .awake
        simp only [hasleep, Posture.weight] at hput
        have hsomebody : ({ r with limiter := r.limiter.release } : Room).standing n .asleep =
          some w := hstanding
        simp only [wake, hsomebody]
        show r.alarms.length * k + ((r.put (w.turn .awake)).waiters.map (r.burden k)).sum ≤
          r.alarms.length * k + (r.waiters.map (r.burden k)).sum + 1
        omega

/-- An alarm that rings has paid for everybody it wakes. -/
theorem charge_ring (hk : r.waiters.length < k) (hs : s ∈ r.alarms) :
    (r.ring s).charge k < r.charge k := by
  have halert := sum_burden_alert (k := k) r
  have hlength : (r.alarms.erase s).length + 1 = r.alarms.length := by
    rw [List.length_erase_of_mem hs]
    have := List.length_pos_of_mem hs
    omega
  rw [ring, if_pos hs]
  show (r.alarms.erase s).length * k + (r.alert.waiters.map (r.burden k)).sum <
    r.alarms.length * k + (r.waiters.map (r.burden k)).sum
  rw [← hlength, Nat.add_mul, Nat.one_mul]
  omega

theorem fired_fire (r : Room) (s s' : String) :
    ((r.fire s).tokens s').fired = if s' = s then true else (r.tokens s').fired := by
  by_cases hsame : s' = s
  · simp [fire, setToken, hsame]
  · simp [fire, setToken, hsame]

/-- A caller loses its alarm exactly if its signal fires. -/
theorem burden_fire (hquiet : (r.tokens s).fired = false) (w : Waiter) :
    r.burden k w =
      (r.fire s).burden k w + bif w.signal = some s then k else 0 := by
  cases hsignal : w.signal with
  | none => simp [burden, hasAlarm, hsignal]
  | some s' =>
    by_cases hsame : s' = s
    · subst hsame
      simp [burden, hasAlarm, hsignal, fired_fire, hquiet]
    · simp [burden, hasAlarm, hsignal, fired_fire, hsame]

/-- **The alarms of a signal that fires are as many as the callers that have one.** -/
theorem charge_fire (h : r.Sound) (hquiet : (r.tokens s).fired = false) :
    (r.fire s).charge k = r.charge k := by
  have hlost : ∀ ws : List Waiter, (ws.map (r.burden k)).sum =
      (ws.map ((r.fire s).burden k)).sum +
        (ws.countP fun w => w.signal = some s) * k := by
    intro ws
    induction ws with
    | nil => simp
    | cons w ws ih =>
      rw [List.map_cons, List.map_cons, List.sum_cons, List.sum_cons, ih, List.countP_cons,
        burden_fire hquiet w]
      by_cases hsignal : w.signal = some s
      · simp only [hsignal, decide_true, cond_true, if_true, Nat.add_mul, Nat.one_mul]
        omega
      · simp only [hsignal, decide_false, cond_false, Bool.false_eq_true, if_false, Nat.add_zero]
        omega
  have halarms : (r.fire s).alarms.length =
      r.alarms.length + r.waiters.countP fun w => w.signal = some s := by
    simp only [fire, Token.fire_of_quiet hquiet, List.length_append, List.length_map]
    rw [h.registered s hquiet]
  rw [charge, charge, halarms, hlost r.waiters, Nat.add_mul]
  show _ + (r.waiters.map ((r.fire s).burden k)).sum = _
  omega

end Room

end RepoAudit
