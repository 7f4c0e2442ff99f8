import RepoAudit.Environment
import RepoAudit.Review.Model
import RepoAudit.Scanner.Basic
import RepoAudit.Text.Numeral

/-!
# Scripted runs

A scan can be rehearsed without any scanner installed: what each program would print is written down
beforehand.

* `lineScanner` — a scanner whose report has one finding per line.
* `Script` — what each program does when it is run, and the files that can be read back.
* `Script.environment` — the environment that plays a script and keeps a record of it.
* `model` — a model that always does the same, recorded as well.
-/

namespace RepoAudit.Rehearsal

/-! ### A scanner of lines -/

/-- Why a text is no integer, in words. -/
def badInteger (s : String) : String :=
  "invalid literal for int() with base 10: " ++ Text.quote s

/-- The finding of a line `path|line|severity|description`; other lines give none. -/
def lineFinding (line : List Char) : Except String (Option RawFinding) :=
  match (Text.splitOn '|' line).map String.ofList with
  | [path, number, severity, description] =>
    if number = "" then .ok (some ⟨path, description, severity, none, none⟩)
    else
      match Text.integer? number with
      | some n => .ok (some ⟨path, description, severity, some n, none⟩)
      | none => .error (badInteger number)
  | _ => .ok none

/-- The findings of a report; one that starts with `CRASH` cannot be read. -/
def lineFindings (report : String) : Except String (List RawFinding) :=
  if "CRASH".toList.isPrefixOf report.toList then .error "parser bug"
  else ((Text.splitOn '\n' report.toList).mapM lineFinding).map (List.filterMap id)

/-- A scanner of a name, called with the repository and the languages. -/
def lineScanner (name : String) : Scanner where
  name := name
  command := name
  description := name
  args repo languages := .ok (repo :: languages)
  read := lineFindings

/-! ### Scripts -/

/-- What a scripted run does besides printing: signals first, then at most one failure. -/
structure Cue where
  stdout : String := ""
  stderr : String := ""
  exitCode : Int := 0
  fires : Bool := false
  shutsDown : Bool := false
  cancelsScan : Bool := false
  failure : Option Execution.Failure := none

/-- The cues of programs, and files by path. In what is printed and in files, the mark stands for
the directory of the run. -/
structure Script where
  cues : List (String × Cue) := []
  files : List (String × String) := []
  mark : String := ""

/-- What a script has been asked for. -/
structure Record where
  calls : List Invocation := []
  removed : List String := []
  prompts : List String := []
  directory : String := ""
  shutDown : Bool := false
  cancelled : Nat := 0
  deriving Repr

namespace Script

/-- A text with the mark replaced by a directory. -/
def fillIn (sc : Script) (directory text : String) : String :=
  Text.substitute text sc.mark directory

/-- The cue of a program; without one it prints nothing. -/
def cue (sc : Script) (program : String) : Cue := (sc.cues.lookup program).getD {}

/-- Plays a script. -/
def environment (sc : Script) : Environment Record where
  run inv signal log :=
    let c := sc.cue inv.program
    let log := { log with
      calls := log.calls ++ [inv], directory := inv.directory
      shutDown := log.shutDown || c.shutsDown
      cancelled := log.cancelled + (if c.cancelsScan then 1 else 0) }
    let signal := if c.fires || c.shutsDown || c.cancelsScan then signal.fire else signal
    let reply := match c.failure with
      | some e => .error e
      | none => .ok ⟨inv.program, c.exitCode, sc.fillIn inv.directory c.stdout, c.stderr⟩
    ((reply, signal), log)
  readBack path log :=
    let named := sc.files.find? fun f => sc.fillIn log.directory f.1 = path
    (.ok ((named.map fun f => sc.fillIn log.directory f.2).getD ""), log)
  discard path log := (.ok (), { log with removed := log.removed ++ [path] })

end Script

/-- A model that does the same with every request and keeps a record of the user prompts. -/
def model (reaction : Reaction) : Model Record := fun _ user log =>
  (reaction, { log with prompts := log.prompts ++ [user] })

end RepoAudit.Rehearsal
