import RepoAudit.Cancel
import RepoAudit.Limiter.Basic

/-!
# Waiting for a slot

Many callers and one limiter, as atomic steps. A caller registers an alarm with its signal and looks
for a slot; while it finds none it sleeps, until a release wakes it, an alarm rings or its time is up,
and looks again. When it has looked for the last time it takes its alarm back.

* `Waiter`, `Posture` — a caller, and where it stands in its call.
* `Room` — the limiter, its callers, the signals and the alarms still to ring.
* `Room.arrive`, `Room.ringFor`, `Room.enter`, `Room.examine`, `Room.expire`, `Room.leave` — the
  atomic steps of a caller.
* `Room.tryTake`, `Room.releaseWaking`, `Room.fire`, `Room.ring` — what else happens in the room.
* `Room.call`, `Room.settle` — a call up to its first look, and the steps that are left when nobody
  else comes or goes.

A sleep ends because the caller is woken or because its time is up. A time limit beyond the longest that
the system can wait for is left out: there the sleep itself is refused with an error, and the caller leaves
with that.
-/

namespace RepoAudit

/-- Where a caller stands in its call: it has come when its signal had fired and has to ring its alarm
itself; it has come and has not looked yet; it sleeps; it has been woken and has not looked since; it
has looked for the last time, and its alarm is still registered. -/
inductive Posture where
  | ringing
  | arriving
  | asleep
  | awake
  | leaving
  deriving Repr, DecidableEq

/-- A caller: its number, the name of its signal, its time limit, and where it stands. -/
structure Waiter where
  number : Nat
  signal : Option String := none
  limit : Option String := none
  posture : Posture := .arriving
  deriving Repr, DecidableEq

/-- A caller in another posture. -/
def Waiter.turn (w : Waiter) (posture : Posture) : Waiter := { w with posture := posture }

/-- A caller after everybody has been woken. -/
def Waiter.woken (w : Waiter) : Waiter := if w.posture = .asleep then w.turn .awake else w

/-- How a caller left: with a slot, or without one. -/
abbrev Leaving := Except SlotError Unit

/-- Whether a caller left because its signal had fired. -/
def Leaving.wasCancelled : Leaving → Bool
  | .error .cancelled => true
  | _ => false

/-- A limiter with everybody around it. All callers of a room register the same alarm, so a signal
knows only how many of them it has to ring. The alarms that a fired signal has handed out and that are
still to ring stand under its name. -/
structure Room where
  limiter : Limiter
  waiters : List Waiter := []
  tokens : String → Token Unit := fun _ => {}
  alarms : List String := []
  left : List (Nat × Leaving) := []

namespace Room

/-- Whether the signal of a caller has fired. -/
def isCancelled (r : Room) (w : Waiter) : Bool := w.signal.any fun s => (r.tokens s).fired

/-- The caller of a number, if it is in this posture. -/
def standing (r : Room) (number : Nat) (posture : Posture) : Option Waiter :=
  r.waiters.find? fun w => w.number = number && w.posture = posture

/-- The room with a caller put in the place of the one with its number. -/
def put (r : Room) (w : Waiter) : Room :=
  { r with waiters := r.waiters.map fun v => if v.number = w.number then w else v }

/-- The room with another state of a signal. -/
def setToken (r : Room) (s : String) (t : Token Unit) : Room :=
  { r with tokens := fun s' => if s' = s then t else r.tokens s' }

/-- Every sleeping caller is woken. -/
def alert (r : Room) : Room := { r with waiters := r.waiters.map Waiter.woken }

/-! ### The steps of a caller -/

/-- A caller comes and registers its alarm. -/
def arrive (r : Room) (w : Waiter) : Room :=
  match w.signal with
  | none => { r with waiters := r.waiters ++ [w.turn .arriving] }
  | some s =>
    let (t, atOnce) := (r.tokens s).register ()
    { r.setToken s t with waiters := r.waiters ++ [w.turn (if atOnce then .ringing else .arriving)] }

/-- A caller whose signal had fired when it came rings its alarm itself. -/
def ringFor (r : Room) (number : Nat) : Room :=
  match r.standing number .ringing with
  | none => r
  | some w => r.alert.put (w.turn .arriving)

/-- What a caller decides when it looks: a fired signal comes first, then a free slot, then the end
of its time; `none` means to sleep. -/
def decision (r : Room) (w : Waiter) (expired : Bool) : Option Leaving :=
  if r.isCancelled w then some (.error .cancelled)
  else if r.limiter.hasFree then some (.ok ())
  else
    match w.limit with
    | some t => if expired then some (.error (.timedOut t)) else none
    | none => none

/-- The room after a caller that counts as waiting has looked. -/
def look (r : Room) (w : Waiter) (expired : Bool) : Room :=
  match r.decision w expired with
  | none => r.put (w.turn .asleep)
  | some leaving =>
    let limiter := match leaving with
      | .ok () => r.limiter.take
      | .error _ => r.limiter
    { r.put (w.turn .leaving) with
      limiter := { limiter with waiting := limiter.waiting - 1 }
      left := r.left ++ [(w.number, leaving)] }

/-- A caller that has come counts as waiting and looks. -/
def enter (r : Room) (number : Nat) (expired : Bool) : Room :=
  match r.standing number .arriving with
  | none => r
  | some w =>
    look { r with limiter := { r.limiter with waiting := r.limiter.waiting + 1 } } w expired

/-- A caller that has been woken looks again. -/
def examine (r : Room) (number : Nat) (expired : Bool) : Room :=
  match r.standing number .awake with
  | none => r
  | some w => r.look w expired

/-- A sleeping caller is woken. -/
def wake (r : Room) (number : Nat) : Room :=
  match r.standing number .asleep with
  | none => r
  | some w => r.put (w.turn .awake)

/-- A sleeping caller with a time limit wakes by itself. -/
def expire (r : Room) (number : Nat) : Room :=
  match r.standing number .asleep with
  | none => r
  | some w => if w.limit.isSome then r.put (w.turn .awake) else r

/-- A caller that has looked for the last time takes its alarm back and is gone. -/
def leave (r : Room) (number : Nat) : Room :=
  match r.standing number .leaving with
  | none => r
  | some w =>
    let r := { r with waiters := r.waiters.filter fun v => v.number ≠ number }
    match w.signal with
    | none => r
    | some s => r.setToken s ((r.tokens s).remove ())

/-! ### What else happens -/

/-- A slot is taken without waiting, if one is free. -/
def tryTake (r : Room) : Bool × Room :=
  let (taken, limiter) := r.limiter.tryTake
  (taken, { r with limiter := limiter })

/-- A slot is given back and one sleeping caller, if there is any, is woken. -/
def releaseWaking (r : Room) (number : Option Nat) : Room :=
  if r.limiter.active = 0 then r
  else
    let r := { r with limiter := r.limiter.release }
    match number with
    | none => r
    | some n => r.wake n

/-- The sleeping caller that came first. -/
def firstAsleep (r : Room) : Option Nat :=
  (r.waiters.find? fun w => w.posture = .asleep).map Waiter.number

/-- A slot is given back and the sleeping caller that came first is woken. -/
def release (r : Room) : Room := r.releaseWaking r.firstAsleep

/-- A signal fires; the alarms registered with it are still to ring. -/
def fire (r : Room) (s : String) : Room :=
  let (t, callbacks) := (r.tokens s).fire
  { r.setToken s t with alarms := r.alarms ++ callbacks.map fun _ => s }

/-- An alarm rings and wakes every caller. -/
def ring (r : Room) (s : String) : Room :=
  if s ∈ r.alarms then { r.alert with alarms := r.alarms.erase s } else r

/-! ### Several steps in a row -/

/-- A caller comes and looks; if it does not sleep then, it leaves. -/
def call (r : Room) (w : Waiter) (expired : Bool) : Room :=
  (((r.arrive w).ringFor w.number).enter w.number expired).leave w.number

/-- A caller looks again if it has been woken, and leaves if it does not go on sleeping. -/
def review (r : Room) (number : Nat) (expired : Bool) : Room :=
  (r.examine number expired).leave number

/-- The room once every alarm has rung and every woken caller has looked, in the order of
arrival. -/
def settle (r : Room) : Room :=
  let r := r.alarms.foldl ring r
  r.waiters.foldl (fun r w => r.review w.number false) r

end Room

end RepoAudit
