import RepoAudit.Cancel
import RepoAudit.Machine
import RepoAudit.Text.Lines

/-!
# Where scanners run

* `Environment` — how a scanner is run and its report file read back, over any state `σ` of what
  lies outside. Each of these may fail.
* `Request`, `Environment.answer` — what a scanner may ask for, and what it is answered.
* `Environment.here` — programs run on a machine directly.
* `Environment.container` — programs run inside a container through `docker exec`.
-/

namespace RepoAudit

/-- One run of a scanner. -/
structure Invocation where
  program : String
  args : List String
  directory : String
  limit : Duration
  deriving Repr, DecidableEq

/-- The outcome of a run, with the signal as the run leaves it. -/
abbrev RunReply := Except Execution.Failure Execution.Finished × Signal

/-- A place where scanners run. Reading a file back and removing it can fail with a message. -/
structure Environment (σ : Type) where
  run : Invocation → Signal → σ → RunReply × σ
  readBack : String → σ → Except String String × σ
  discard : String → σ → Except String Unit × σ

/-- What a scanner may ask of the place where it runs: a run, the text of a file, its removal. -/
inductive Request where
  | run (inv : Invocation)
  | readBack (path : String)
  | discard (path : String)
  deriving Repr, DecidableEq

/-- What a request is answered with. -/
abbrev Request.Answer : Request → Type
  | .run _ => Except Execution.Failure Execution.Finished
  | .readBack _ => Except String String
  | .discard _ => Except String Unit

/-- When a signal fires, seen from the start of a program. -/
def Signal.firingTime : Signal → Option Decimal
  | .fired => some (.ofInt 0)
  | _ => none

namespace Environment

/-- The answer to a request, and the signal as answering leaves it. Only a run sees the signal. -/
def answer {σ : Type} (env : Environment σ) (q : Request) (signal : Signal) (outside : σ) :
    (q.Answer × Signal) × σ :=
  match q with
  | .run inv => env.run inv signal outside
  | .readBack path =>
    let (x, outside) := env.readBack path outside
    ((x, signal), outside)
  | .discard path =>
    let (x, outside) := env.discard path outside
    ((x, signal), outside)

/-- The text of a file, with every line end read as a line feed; empty when it cannot be read. -/
def readText (m : Machine) (path : String) : String :=
  match m.files.read m.directory path with
  | .ok c => Text.unifyNewlines (Text.Utf8.textOf c.toBytes)
  | .error _ => ""

/-- The machine without a file, if it can be removed. -/
def removeQuietly (m : Machine) (path : String) : Machine :=
  match m.files.unlink m.directory path with
  | .ok files => { m with files := files }
  | .error _ => m

/-- Programs run on the machine itself. -/
def here : Environment Machine where
  run inv signal m :=
    let (r, m) := m.run ⟨inv.program, inv.args, some inv.directory, []⟩ inv.limit signal.firingTime
    ((r, signal), m)
  readBack path m := (.ok (readText m path), m)
  discard path m := (.ok (), removeQuietly m path)

/-- The time limit of commands that only read or remove a file. -/
def auxiliaryLimit : Duration := .whole 30

/-- Programs run inside a container that sees the directories of the machine under the same
paths. -/
def container (name : String) : Environment Machine where
  run inv signal m :=
    let args := ["exec", "-w", inv.directory, name, inv.program] ++ inv.args
    let (r, m) := m.run ⟨"docker", args, none, []⟩ inv.limit signal.firingTime
    ((r, signal), m)
  readBack path m :=
    match m.run ⟨"docker", ["exec", name, "cat", path], none, []⟩ auxiliaryLimit none with
    | (.ok f, m) => (.ok (if f.exitCode = 0 then f.stdout else ""), m)
    | (.error _, m) => (.ok "", m)
  discard path m := (.ok (), (m.run ⟨"docker", ["exec", name, "rm", "-f", path], none, []⟩
    auxiliaryLimit none).2)

end Environment

/-- The place that a configuration chooses: a container by its name, or the machine itself. -/
inductive Place where
  | here
  | container (name : String)
  deriving Repr, DecidableEq

namespace Place

/-- A container when a name is given. -/
def ofContainer (name : String) : Place := if name = "" then .here else .container name

/-- How a place is shown. -/
def shown : Place → String
  | .here => "LocalEnvironment()"
  | .container n => "DockerExecEnvironment(container=" ++ Text.quote n ++ ")"

/-- The environment of a place. -/
def environment : Place → Environment Machine
  | .here => .here
  | .container n => .container n

end Place

end RepoAudit
