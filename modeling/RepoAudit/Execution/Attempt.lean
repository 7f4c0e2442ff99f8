import RepoAudit.Execution

/-!
# The process behind an execution

An execution leaves its program in one of three ways: the program ends by itself, it is killed at its
deadline or for its signal, or a wait for it fails and it is killed on the way out. Here these ways are
told with all that is done about the process, and with the waits that a kill takes, each of which may
fail itself. The last of them has no limit: it waits until nobody holds the pipes of the process any
longer, which may be long after the process is gone, or never.

* `Deed` — what is done about a process; `Attempt` — an outcome and the deeds.
* `Collecting.stop` — killing a process with its group, and the waits for its end.
* `Watch` — one turn of watching, with the waits that there would be if it were the last.
* `Watch.abandon` — the way out after a wait has failed; `Watch.conclude` — what a turn decides.
* `attempt` — the whole of it, from the check before the start.
-/

namespace RepoAudit.Execution

/-- A failure that comes from outside: of the system, or a defect. -/
inductive Fault where
  | system (e : SystemError)
  | crashed (message : String)
  deriving Repr, DecidableEq

/-- A failure from outside as that of an execution. -/
def Fault.failure : Fault → Failure
  | .system e => .system e
  | .crashed m => .crashed m

/-- What is done about a process: it is started, it is killed with its group or alone, and its end is
collected. -/
inductive Deed where
  | started
  | groupKilled
  | killed
  | reaped
  deriving Repr, DecidableEq

/-- An execution as it went: what was done about the process, in order, and its outcome, if it does not
wait without end. -/
structure Attempt where
  outcome : Option (Except Failure Finished)
  deeds : List Deed

/-- How the waits for a killed process go: one of five seconds, and one without a limit if the process
outlives the first, which need not come back. -/
structure Collecting where
  soon : Sight
  late : Option (Except String (List UInt8))

/-- Kills a process with its group and collects what it has written; a process that is still there after
five seconds is killed once more by itself. -/
def Collecting.stop (c : Collecting) : Option (Except String (List UInt8)) × List Deed :=
  match c.soon with
  | .exited _ out _ => (some (.ok out), [.groupKilled, .reaped])
  | .broke m => (some (.error m), [.groupKilled])
  | .running =>
    match c.late with
    | some (.ok out) => (some (.ok out), [.groupKilled, .killed, .reaped])
    | some (.error m) => (some (.error m), [.groupKilled, .killed])
    | none => (none, [.groupKilled, .killed])

/-- One turn of watching: the clock, whether the signal has fired, and what the program did while it was
waited for. If the turn is the last, there may be the waits of a stop, a look at whether the process has
ended, and the waits of a stop on the way out. -/
structure Watch where
  clock : Decimal
  fired : Bool
  sight : Sight
  stopping : Collecting
  ended : Bool
  clearing : Collecting

namespace Watch

/-- The way out after a wait has failed: a process that has not ended is killed. The failure is passed
on, unless a wait fails here too. -/
def abandon (w : Watch) (message : String) : Attempt :=
  if w.ended then ⟨some (.error (.crashed message)), [.reaped]⟩
  else
    match w.clearing.stop with
    | (some (.ok _), deeds) => ⟨some (.error (.crashed message)), deeds⟩
    | (some (.error m), deeds) => ⟨some (.error (.crashed m)), deeds⟩
    | (none, deeds) => ⟨none, deeds⟩

/-- Stops the process for a reason, which is told with what the process wrote. -/
def cutShort (w : Watch) (reason : String → Failure) : Attempt :=
  match w.stopping.stop with
  | (some (.ok written), deeds) => ⟨some (.error (reason (excerpt written))), deeds⟩
  | (some (.error m), deeds) => ⟨(w.abandon m).outcome, deeds ++ (w.abandon m).deeds⟩
  | (none, deeds) => ⟨none, deeds⟩

/-- What a turn decides, if anything: a passed deadline comes first, then a fired signal, then what the
program did. -/
def conclude (program : String) (limit : Duration) (deadline : Decimal) (w : Watch) : Option Attempt :=
  if deadline.le w.clock then some (w.cutShort (.timedOut program limit))
  else if w.fired then some (w.cutShort (.cancelled program true))
  else
    match w.sight with
    | .exited code out err =>
      some ⟨some (.ok ⟨program, code, Text.Utf8.textOf out, Text.Utf8.textOf err⟩), [.reaped]⟩
    | .running => none
    | .broke m => some (w.abandon m)

end Watch

/-- Starts a program unless its signal has fired already or there is no deadline for its limit, and
watches it to the first turn that decides something. A start gives the clock and the turns to come, or
fails. -/
def attempt (program : String) (limit : Duration) (firedBefore : Bool)
    (start : Except Fault (Decimal × List Watch)) : Option Attempt :=
  if firedBefore then some ⟨some (.error (.cancelled program false "")), []⟩
  else if !limit.isCountable then some ⟨some (.error (.crashed overflowText)), []⟩
  else
    match start with
    | .error e => some ⟨some (.error e.failure), []⟩
    | .ok (clock, ws) =>
      (ws.findSome? (Watch.conclude program limit (clock.add limit.seconds))).map fun a =>
        ⟨a.outcome, .started :: a.deeds⟩

end RepoAudit.Execution
