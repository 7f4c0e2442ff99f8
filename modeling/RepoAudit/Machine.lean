import RepoAudit.Execution
import RepoAudit.Files.Resolve

/-!
# Machines

What programs run on: files, a working directory, and programs that are known by name.

* `Machine.start` — a program started, or the reason why it cannot be.
* `Machine.run` — a program started and watched to its end.
-/

namespace RepoAudit

/-- The failure of the system that a path leads to. -/
def SystemError.ofPathError (e : PathError) (path : String) : SystemError :=
  match e with
  | .missing => .onPath .missing 2 e.reason path
  | .notDirectory => .onPath .notDirectory 20 e.reason path
  | .isDirectory => .onPath .other 21 e.reason path
  | .tooManyLinks => .onPath .other 40 e.reason path
  | .nameTooLong => .onPath .other 36 e.reason path
  | .alreadyThere => .onPath .alreadyThere 17 e.reason path
  | .refused r => .ofText r.message

/-- A request to start a program; without a directory it starts in the machine's own. -/
structure Launch where
  program : String
  args : List String
  directory : Option String := none
  vars : List (String × String) := []
  deriving Repr, DecidableEq

/-- Why a variable cannot be passed to a program: the bytes of its name and its value are asked for, and
its name must not hold an equals sign. -/
def Launch.variableDefect? (v : String × String) : Option String :=
  (Text.encodingError? v.1).or
    (if '=' ∈ v.1.toList then some "illegal environment variable name" else Text.encodingError? v.2)

/-- Why a request cannot be passed on to a program as it is, the directory apart: for a variable, for its
name or an argument, or for the character U+0000 in a variable. -/
def Launch.defect? (l : Launch) : Option String :=
  (l.vars.findSome? variableDefect?).or
    (((l.program :: l.args).findSome? fun x => (Refusal.of? x).map Refusal.message).or
      ((l.vars.flatMap fun v => [v.1, v.2]).findSome? fun x =>
        (Refusal.of? x).map Refusal.message))

/-- A program: what it does when started in a place, to the files and otherwise. -/
abbrev Program := Launch → Location → FileTree → Execution.Behaviour × FileTree

/-- Files, the working directory, the programs that can be found by name, a record of what was started
and where, and how deep the calls of a walk may nest. -/
structure Machine where
  files : FileTree := .empty
  directory : Location := []
  programs : List (String × Program) := []
  journal : List (Launch × Location) := []
  nesting : Nat := 950

namespace Machine

open Execution

/-- The place where a request starts its program. -/
def startingPlace (m : Machine) (l : Launch) : Except Failure Location :=
  match l.directory with
  | none => .ok m.directory
  | some d =>
    match m.files.locate m.directory true d with
    | .ok loc =>
      if m.files.entryAt? loc = some .directory then .ok loc
      else .error (.system (.ofPathError .notDirectory d))
    | .error (.refused r) => .error (.crashed r.message)
    | .error e => .error (.system (.ofPathError e d))

/-- The program of a request. A name with a slash is a path; of what paths lead to, only programs that
are known by that path may be run. -/
def programOf (m : Machine) (place : Location) (l : Launch) : Except Failure Program :=
  let denied : Failure := .system (.onPath .denied 13 "Permission denied" l.program)
  let missing : Failure := .system (.ofPathError .missing l.program)
  match m.programs.lookup l.program with
  | some p => .ok p
  | none =>
    if l.program = "" then .error denied
    else if '/' ∈ l.program.toList then
      match m.files.locate place true l.program with
      | .ok _ => .error denied
      | .error .notDirectory => .error (.system (.ofPathError .notDirectory l.program))
      | .error _ => .error missing
    else .error missing

/-- Starts the program of a request. -/
def start (m : Machine) (l : Launch) : Except Failure Behaviour × Machine :=
  match l.defect? with
  | some message => (.error (.crashed message), m)
  | none =>
    match m.startingPlace l with
    | .error e => (.error e, m)
    | .ok place =>
      match m.programOf place l with
      | .error e => (.error e, m)
      | .ok p =>
        let (b, files) := p l place m.files
        (.ok b, { m with files := files, journal := m.journal ++ [(l, place)] })

/-- Runs the program of a request within a time limit; `fires` is when its signal fires. A program
whose signal has fired before is not started, and neither is one without a deadline. -/
def run (m : Machine) (l : Launch) (limit : Duration) (fires : Option Decimal) :
    Except Failure Finished × Machine :=
  if fires.any (·.le (.ofInt 0)) || !limit.isCountable then
    (runBehaviour l.program limit fires (.error (.crashed "")), m)
  else
    let (b, m) := m.start l
    (runBehaviour l.program limit fires b, m)

end Machine

end RepoAudit
