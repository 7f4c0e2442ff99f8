import RepoAudit.Cancel

/-!
# Everybody around a token

Threads register callbacks with one token, take them back and cancel it. A step is what a thread does
while it has the token to itself, or that it calls one callback, which it does without holding the
token. Any interleaving of threads is a list of such steps; what a callback does with the token is
among them. A callback fails by an ordinary error; that a thread is killed while it calls one is no
step.

* `Audience.Standing`, `Audience.Registration` — a registration, and how far it has got.
* `Audience.Caller`, `Audience.Call` — a call of a callback, and who makes it.
* `Audience` — the token with all registrations, cancel calls and calls of callbacks so far.
* `Audience.Event`, `Audience.step`, `Audience.run` — the steps, and several in a row.
* `Audience.calledBy`, `Audience.leftOf`, `Audience.due` — what a caller has called, what it has still
  to call, and both together; `Audience.IsSettled` — nobody has anything left to call.
* `Audience.registered`, `Audience.takenBack` — what a list of steps registers and takes back.
-/

namespace RepoAudit

namespace Audience

/-- How far a registration has got. The token had fired and its callback is still to be called; its
handle has been given out; its handle has been used; or its callback has failed at once, and there is
no handle. -/
inductive Standing where
  | calling
  | held
  | used
  | failed
  deriving Repr, DecidableEq

/-- A callback that has been registered, and how far its registration has got. -/
structure Registration (κ : Type) where
  callback : κ
  standing : Standing
  deriving Repr, DecidableEq

/-- What a registration has still to call. -/
def Registration.left {κ : Type} (r : Registration κ) : List κ :=
  if r.standing = .calling then [r.callback] else []

/-- Who calls a callback: a cancel call or a registration, by its number. -/
inductive Caller where
  | cancelling (number : Nat)
  | registering (number : Nat)
  deriving Repr, DecidableEq

/-- A call of a callback, and whether it has failed. -/
structure Call (κ : Type) where
  caller : Caller
  callback : κ
  failed : Bool
  deriving Repr, DecidableEq

end Audience

/-- A token with everybody around it: the registrations in their order, the callbacks that each cancel
call has still to call, and the calls made so far. -/
structure Audience (κ : Type) where
  token : Token κ := {}
  registrations : List (Audience.Registration κ) := []
  rounds : List (List κ) := []
  calls : List (Audience.Call κ) := []

namespace Audience

variable {κ : Type}

/-- A step: a callback is registered; a registration calls its callback because the token has fired; a
handle is used; a cancel call fires the token; or it calls the next callback. -/
inductive Event (κ : Type) where
  | register (k : κ)
  | callNow (number : Nat) (fails : Bool)
  | takeBack (number : Nat)
  | cancel
  | callNext (number : Nat) (fails : Bool)
  deriving Repr, DecidableEq

/-- A registration gets on. -/
def turn (a : Audience κ) (n : Nat) (r : Registration κ) (standing : Standing) : Audience κ :=
  { a with registrations := a.registrations.set n ⟨r.callback, standing⟩ }

/-- One step, if it can be made. A handle is used once, and only after it has been given out. A cancel
call goes on to the next callback whether or not one has failed. -/
def step [DecidableEq κ] (a : Audience κ) : Event κ → Option (Audience κ)
  | .register k =>
    let (token, now) := a.token.register k
    some { a with
      token := token
      registrations := a.registrations ++ [⟨k, if now then .calling else .held⟩] }
  | .callNow n fails =>
    match a.registrations[n]? with
    | some r =>
      if r.standing = .calling then
        some { a.turn n r (if fails then .failed else .held) with
          calls := a.calls ++ [⟨.registering n, r.callback, fails⟩] }
      else none
    | none => none
  | .takeBack n =>
    match a.registrations[n]? with
    | some r =>
      if r.standing = .held then
        some { a.turn n r .used with token := a.token.remove r.callback }
      else none
    | none => none
  | .cancel =>
    let (token, callbacks) := a.token.fire
    some { a with token := token, rounds := a.rounds ++ [callbacks] }
  | .callNext m fails =>
    match a.rounds[m]? with
    | some (k :: rest) =>
      some { a with
        rounds := a.rounds.set m rest
        calls := a.calls ++ [⟨.cancelling m, k, fails⟩] }
    | _ => none

/-- Several steps in a row, if each can be made. -/
def run [DecidableEq κ] (a : Audience κ) (events : List (Event κ)) : Option (Audience κ) :=
  events.foldlM step a

/-- The callbacks that a caller has called, in order. -/
def calledBy (a : Audience κ) (caller : Caller) : List κ :=
  (a.calls.filter (·.caller = caller)).map Call.callback

/-- The callbacks that a caller has still to call. -/
def leftOf (a : Audience κ) : Caller → List κ
  | .cancelling m => a.rounds[m]?.elim [] id
  | .registering n => a.registrations[n]?.elim [] Registration.left

/-- All that a caller comes to call: what it has called, and what is left. -/
def due (a : Audience κ) (caller : Caller) : List κ := a.calledBy caller ++ a.leftOf caller

/-- Nobody has anything left to call. -/
def IsSettled (a : Audience κ) : Prop := ∀ caller, a.leftOf caller = []

/-! ### What happened -/

/-- The callbacks that are registered by a list of steps, in order. -/
def registered (events : List (Event κ)) : List κ :=
  events.filterMap fun
    | .register k => some k
    | _ => none

/-- Whether a step takes back a registration of a callback, the registered callbacks being these. -/
def Event.takes [DecidableEq κ] (callbacks : List κ) (k : κ) : Event κ → Bool
  | .takeBack n => callbacks[n]? = some k
  | _ => false

/-- How often a list of steps takes back a registration of a callback. -/
def takenBack [DecidableEq κ] (events : List (Event κ)) (k : κ) : Nat :=
  events.countP (Event.takes (registered events) k)

end Audience

end RepoAudit
