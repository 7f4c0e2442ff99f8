import RepoAudit.Decimal
import RepoAudit.Text.Quoted
import RepoAudit.Text.Utf8

/-!
# Bounded execution of programs

A program is started, watched in turns and killed at its deadline or when its signal fires.

* `Failure`, `Finished` — how an execution can go.
* `supervise` — the watching: what each turn shows decides, a passed deadline first, then a fired
  signal, then what the program did.
* `execute` — the whole of it, from the check before the start.
* `Behaviour` — a program known by what it writes and when it ends, and the turns that watching it
  would take.
-/

namespace RepoAudit

/-- A length of time as it was given: a whole number of seconds or a decimal one. -/
inductive Duration where
  | whole (n : Int)
  | decimal (d : Decimal)
  deriving Repr, DecidableEq, Inhabited

namespace Duration

/-- The number of seconds. -/
def seconds : Duration → Decimal
  | .whole n => .ofInt n
  | .decimal d => d

/-- Whether a duration can be added to a reading of the clock, which is a double: an integer that is
nearer to the power of two above all doubles than to the largest of them cannot. -/
def isCountable : Duration → Bool
  | .whole n => n.natAbs < Nat.pow 2 1024 - Nat.pow 2 970
  | .decimal _ => true

/-- The text of a duration. -/
def text : Duration → String
  | .whole n => Decimal.renderInt n
  | .decimal d => d.render

end Duration

/-- The kinds of failure of the system that are told apart. -/
inductive SystemKind where
  | missing
  | denied
  | notDirectory
  | alreadyThere
  | other
  deriving Repr, DecidableEq

/-- A failure reported by the system: its reason, if it has one, and its full text. -/
structure SystemError where
  kind : SystemKind := .other
  reason : Option String := none
  text : String := ""
  deriving Repr, DecidableEq

namespace SystemError

/-- The reason, or the full text when there is none. -/
def describe (e : SystemError) : String :=
  match e.reason with
  | some r => if r = "" then e.text else r
  | none => e.text

/-- A numbered failure that concerns a path. -/
def onPath (kind : SystemKind) (number : Nat) (reason path : String) : SystemError :=
  ⟨kind, some reason, "[Errno " ++ toString number ++ "] " ++ reason ++ ": " ++ Text.quote path⟩

/-- A failure with a number and a reason, either of which may be lacking. -/
def numbered (number : Option Int) (reason : Option String) : SystemError :=
  ⟨.other, reason, "[Errno " ++ (number.elim "None" Decimal.renderInt) ++ "] " ++
    reason.getD "None"⟩

/-- A failure with nothing but a text. -/
def ofText (text : String) : SystemError := ⟨.other, none, text⟩

end SystemError

namespace Execution

/-- Why an execution gave no result. -/
inductive Failure where
  | timedOut (program : String) (limit : Duration) (written : String)
  | cancelled (program : String) (started : Bool) (written : String)
  | system (e : SystemError)
  | crashed (message : String)
  deriving Repr, DecidableEq

/-- The reason in words. -/
def Failure.message : Failure → String
  | .timedOut p t _ => "Command timed out after " ++ t.text ++ "s: " ++ p
  | .cancelled p started _ =>
    (if started then "Command cancelled: " else "Cancelled before start: ") ++ p
  | .system e => e.text
  | .crashed m => m

/-- The result of a program that ended by itself. -/
structure Finished where
  program : String
  exitCode : Int
  stdout : String
  stderr : String
  deriving Repr, DecidableEq

/-- Two outputs as one text: with a line feed between them when both are there. -/
def combine (stdout stderr : String) : String :=
  if stdout ≠ "" ∧ stderr ≠ "" then stdout ++ "\n" ++ stderr
  else if stdout ≠ "" then stdout
  else stderr

/-- Both outputs of a program as one text. -/
def Finished.output (f : Finished) : String := combine f.stdout f.stderr

/-! ### Watching -/

/-- What one turn of watching shows of the program. -/
inductive Sight where
  | exited (code : Int) (stdout stderr : List UInt8)
  | running
  | broke (message : String)
  deriving Repr

/-- One turn of watching: the clock, whether the signal has fired, what the program has written so
far, and what it did while it was waited for. -/
structure Turn where
  clock : Decimal
  fired : Bool
  written : List UInt8
  sight : Sight
  deriving Repr

/-- What became of the process. -/
inductive ProcessEnd where
  | neverStarted
  | exited
  | killed
  deriving Repr, DecidableEq

/-- The outcome of an execution and what became of the process. -/
structure Ended where
  outcome : Except Failure Finished
  process : ProcessEnd

/-- The first thousand characters of what was written. -/
def excerpt (written : List UInt8) : String :=
  String.ofList ((Text.Utf8.decode written).take 1000)

/-- Watches a program turn by turn; `none` when the turns end before the program does. -/
def supervise (program : String) (limit : Duration) (deadline : Decimal) :
    List Turn → Option Ended
  | [] => none
  | t :: rest =>
    if deadline.le t.clock then
      some ⟨.error (.timedOut program limit (excerpt t.written)), .killed⟩
    else if t.fired then some ⟨.error (.cancelled program true (excerpt t.written)), .killed⟩
    else
      match t.sight with
      | .exited code out err =>
        some ⟨.ok ⟨program, code, Text.Utf8.textOf out, Text.Utf8.textOf err⟩, .exited⟩
      | .running => supervise program limit deadline rest
      | .broke m => some ⟨.error (.crashed m), .killed⟩

/-- What is said of a limit that cannot be added to the clock. -/
def overflowText : String := "int too large to convert to float"

/-- Starts a program unless its signal has fired already or there is no deadline for its limit, and
watches it. A start gives the clock and the turns to come, or a failure. -/
def execute (program : String) (limit : Duration) (firedBefore : Bool)
    (start : Except Failure (Decimal × List Turn)) : Option Ended :=
  if firedBefore then some ⟨.error (.cancelled program false ""), .neverStarted⟩
  else if !limit.isCountable then some ⟨.error (.crashed overflowText), .neverStarted⟩
  else
    match start with
    | .error e => some ⟨.error e, .neverStarted⟩
    | .ok (clock, turns) => supervise program limit (clock.add limit.seconds) turns

/-! ### Programs with a known behaviour -/

/-- What a program writes, each piece with its time since the start, and when and how it ends. -/
structure Behaviour where
  stdout : List (Decimal × List UInt8) := []
  stderr : List UInt8 := []
  ends : Decimal := .ofInt 0
  code : Int := 0
  deriving Repr

namespace Behaviour

/-- The time after `k` full waits of a quarter of a second. -/
def quarter (k : Nat) : Decimal := ⟨false, 25 * k, -2⟩

/-- The earlier of two times. -/
def earlier (a b : Decimal) : Decimal := if a.le b then a else b

/-- The turn of watching that begins at `now` and waits until `next`. -/
def turn (b : Behaviour) (fires : Option Decimal) (now next : Decimal) : Turn where
  clock := now
  fired := fires.any (·.le now)
  written := (b.stdout.filter fun (t, _) => t.lt now).flatMap Prod.snd
  sight := if b.ends.lt next then .exited b.code (b.stdout.flatMap Prod.snd) b.stderr else .running

/-- How many turns certainly reach the end or the deadline. -/
def turnCount (b : Behaviour) (limit : Decimal) : Nat :=
  let last := earlier b.ends limit
  ((last.coefficient * Nat.pow 10 last.exponent.toNat / Nat.pow 10 (-last.exponent).toNat) + 1) * 4 + 1

/-- The turns that watching a program takes, when its signal fires at `fires`: waits of a quarter of
a second, the last one cut at the deadline. -/
def turns (b : Behaviour) (fires : Option Decimal) (limit : Decimal) : List Turn :=
  (List.range (b.turnCount limit + 1)).map fun k =>
    b.turn fires (earlier (quarter k) limit) (earlier (quarter (k + 1)) limit)

end Behaviour

/-- Executes a program with a known behaviour; `fires` is when its signal fires. -/
def runBehaviour (program : String) (limit : Duration) (fires : Option Decimal)
    (start : Except Failure Behaviour) : Except Failure Finished :=
  let firedBefore := fires.any (·.le (.ofInt 0))
  let started := start.map fun b => (Decimal.ofInt 0, b.turns fires limit.seconds)
  match execute program limit firedBefore started with
  | some e => e.outcome
  | none => .error (.crashed "the program was not watched to its end")

end Execution

end RepoAudit
