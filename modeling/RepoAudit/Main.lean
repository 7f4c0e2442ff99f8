import RepoAudit.CommandLine.Basic
import RepoAudit.Rehearsal.Document
import RepoAudit.Rehearsal.Minutes

/-!
# The program

The command line, run on a rehearsal: the first line of the standard input describes what git, the
scanners and the model would do. Served requests follow, one in a line, as a method, a target and a
body with single spaces between them.

* `CommandLine.scanOnce`, `CommandLine.serve` — the two commands.
* `CommandLine.program`, `main` — the program.
-/

namespace RepoAudit.CommandLine

open Rehearsal

/-- The moment at which rehearsals take place unless they say otherwise. -/
def standardMoment : Moment := ⟨719163, 0, some 0⟩

/-- The work root of rehearsals. -/
def workRoot : String := "/tmp/repo-audit"

/-- A rehearsal that a line describes: its service and the moment at which it takes place. -/
def rehearsal (line : String) : Except SystemError (Scenario × Service Scene × Moment) :=
  let document := (Json.parse? .report line.toList).getD .null
  let scenario := Document.scenario Document.fault workRoot document
  (scenario.service {}).map fun s =>
    (scenario, s, (Moment.parse? (document.field "now").text).getD standardMoment)

/-- The request that a line describes. -/
def requestOf (line : String) : Http.Request :=
  match Text.splitOn ' ' line.toList with
  | method :: target :: body =>
    ⟨String.ofList method, String.ofList target,
      String.intercalate " " (body.map String.ofList)⟩
  | parts => ⟨"GET", String.ofList parts.flatten, ""⟩

/-- An answer in a line. -/
def answerLine (r : Http.Response) : String := toString r.status ++ " " ++ Json.render r.body

/-- The variables that settings are read from. -/
def environmentVariables : IO (List (String × String)) := do
  let names := TextSetting.all.map TextSetting.name ++ NumberSetting.all.map NumberSetting.name
  names.filterMapM fun name => do return (← IO.getEnv name).map fun value => (name, value)

/-- Scans one repository. -/
def scanOnce (a : Arguments) (s : Scenario) (svc : Service Scene) (now : Moment)
    (address : String) (asJson : Bool) : IO UInt32 := do
  let (reply, svc) := scan svc now address asJson
  if a.verbose then IO.eprintln (Json.render (.object (s.minutes svc)))
  match reply with
  | .ok outcome =>
    IO.print outcome.stdout
    IO.eprint outcome.stderr
    return UInt32.ofNat outcome.exitCode.toNat
  | .error _ => return 1

/-- Answers requests until the input ends. -/
partial def serve (input : IO.FS.Stream) (svc : Service Scene) (now : Moment) : IO Unit := do
  let line ← input.getLine
  if line.isEmpty then return
  match Http.respond now (some svc) (requestOf (Text.strip line)) with
  | (.ok reply, svc') =>
    IO.println (answerLine reply)
    serve input ((svc'.getD svc).finishAll now) now
  | (.error _, svc') => serve input (svc'.getD svc) now

/-- The whole program. -/
def program (args : List String) : IO UInt32 := do
  match Arguments.read? args with
  | .error e => return UInt32.ofNat e.exitCode.toNat
  | .ok a =>
    match Settings.load (← environmentVariables) [] with
    | .error problems =>
      for (name, problem) in problems do IO.eprintln (name ++ ": " ++ problem.name)
      return 1
    | .ok _ =>
      let input ← IO.getStdin
      match rehearsal (← input.getLine) with
      | .error e =>
        IO.eprintln e.text
        return 1
      | .ok (s, svc, now) =>
        match a.command with
        | .scan address asJson => scanOnce a s svc now address asJson
        | .serve host port =>
          let x := served host port
          IO.eprintln (x.title ++ " " ++ x.version ++ " on " ++ x.host ++ ":" ++
            Decimal.renderInt x.port)
          serve input svc now
          return 0

end RepoAudit.CommandLine

/-- The program. -/
def main (args : List String) : IO UInt32 := RepoAudit.CommandLine.program args
