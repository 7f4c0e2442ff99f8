import RepoAudit.CommandLine.Options
import RepoAudit.Http
import RepoAudit.Json.Printer
import RepoAudit.Settings

/-!
# The command line

The program scans one repository and prints what it finds, or serves the web interface.

* `Command`, `Arguments` — what the program is asked to do.
* `Arguments.read?` — the arguments of the program.
* `scan` — a scan from its request to what is printed.
-/

namespace RepoAudit.CommandLine

/-- What the program is to do. -/
inductive Command where
  | serve (host : String) (port : Int)
  | scan (address : String) (asJson : Bool)
  deriving Repr, DecidableEq

/-- What the program is to do, and whether it says more about it. -/
structure Arguments where
  verbose : Bool := false
  command : Command
  deriving Repr, DecidableEq

/-! ### Arguments -/

/-- The interface that is served on when nothing else is said. -/
def defaultHost : String := "0.0.0.0"

/-- The port that is served on when nothing else is said. -/
def defaultPort : Int := 8000

/-- The option that asks for help. -/
def helpRule : OptionRule := { flag := .help, names := ["-h", "--help"] }

/-- The arguments of the program. -/
def mainGrammar : Grammar where
  options := [helpRule, { flag := .verbose, names := ["-v", "--verbose"] }]
  operands := .rest

/-- The arguments of serving. -/
def serveGrammar : Grammar where
  options := [helpRule, { flag := .host, names := ["--host"], takesValue := true },
    { flag := .port, names := ["--port"], takesValue := true
      accepts := fun s => (Text.integer? s).isSome }]
  operands := .none

/-- The arguments of scanning. -/
def scanGrammar : Grammar where
  options := [helpRule, { flag := .json, names := ["--json"] }]
  operands := .one

/-- The command of serving with its arguments. -/
def readServe? (args : List String) : Except Stop Command := do
  let rd ← serveGrammar.read? args
  if rd.leftOver then throw .misuse
  return .serve ((rd.value? .host).getD defaultHost)
    (((rd.value? .port).bind Text.integer?).getD defaultPort)

/-- The command of scanning with its arguments. -/
def readScan? (args : List String) : Except Stop Command := do
  let rd ← scanGrammar.read? args
  match rd.operands, rd.leftOver with
  | [address], false => return .scan address (rd.has .json)
  | _, _ => throw .misuse

/-- What the program is asked to do. -/
def Arguments.read? (args : List String) : Except Stop Arguments := do
  let rd ← mainGrammar.read? args
  let command ←
    match rd.operands with
    | "serve" :: rest => readServe? rest
    | "scan" :: rest => readScan? rest
    | _ => throw .misuse
  if rd.leftOver then throw .misuse
  return ⟨rd.has .verbose, command⟩

/-! ### Logging -/

/-- The level that is logged from. -/
def logLevel (a : Arguments) (c : Settings) : String :=
  if a.verbose then "DEBUG" else c.text .logLevel

/-- The texts that must never be logged. -/
def secrets (c : Settings) : List String := [c.text .githubToken, c.text .openaiKey]

/-! ### Commands -/

/-- What the program leaves behind: an exit code and what it printed. -/
structure Outcome where
  exitCode : Int
  stdout : String := ""
  stderr : String := ""
  deriving Repr, DecidableEq

/-- What is printed about an address that is not accepted. -/
def refusal (e : AddressError) : Outcome where
  exitCode := 2
  stderr :=
    let hint := e.complaint.hint
    "error: " ++ e.message ++ "\n" ++ (if hint = "" then "" else "       " ++ hint ++ "\n")

/-- What is printed about a job that has ended. -/
def report (asJson : Bool) (j : Job) : Outcome where
  exitCode := if j.status = .completed then 0 else 1
  stdout := if asJson then Json.renderIndented j.toJson ++ "\n" else j.summary

variable {σ : Type}

/-- Scans a repository, waits for the end and shuts the service down. Only a defect has no
outcome. -/
def scan (s : Service σ) (now : Moment) (address : String) (asJson : Bool) :
    Except StartError Outcome × Service σ :=
  match s.start now address with
  | (.error (.address e), s) => (.ok (refusal e), s.shutDown now true)
  | (.error e, s) => (.error e, s.shutDown now true)
  | (.ok job, s) =>
    let (ended, s) := s.wait now job.id
    (match ended with
      | .ok job => .ok (report asJson job)
      | .error e => .error (.job e), s.shutDown now true)

/-- A web server that is started: what it serves and where. -/
structure Served where
  title : String
  version : String
  host : String
  port : Int
  deriving Repr, DecidableEq

/-- The web interface at an address. -/
def served (host : String) (port : Int) : Served := ⟨Http.title, Http.version, host, port⟩

end RepoAudit.CommandLine
