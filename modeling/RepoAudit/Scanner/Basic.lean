import RepoAudit.Finding
import RepoAudit.Procedure

/-!
# Scanners

* `Scanner` — a program that looks for security problems: how it is called and how its report is
  read.
* `Scanner.procedure` — the steps of a run; one that ends badly is a result of its own, and only a
  defect of the environment, of the reading or of the scanner itself escapes.
* `Scanner.run` — these steps in an environment.
-/

namespace RepoAudit

/-- A program that reports security problems of a repository: how its arguments are made, how its
report is collected from what it printed, and how a report is read. Each of these can fail, the
collecting and the reading with a message. -/
structure Scanner where
  name : String
  command : String
  description : String
  args : String → List String → Except Execution.Failure (List String)
  collect : String → String → Procedure (Except String String) :=
    fun _ printed => .done (.ok printed)
  read : String → Except String (List RawFinding)

namespace Scanner

/-- A raw finding whose file is seen from the repository. -/
def localize (repo : String) (f : RawFinding) : RawFinding :=
  { f with filePath := Path.belowRoot repo f.filePath }

/-- What a run comes to that has no report: out of time, cancelled, not to be executed, or
defective. -/
def failed (s : Scanner) : Execution.Failure → Except String ToolResult
  | .timedOut .. => .ok { tool := s.name, timedOut := true }
  | .cancelled .. => .ok { tool := s.name, error := some "cancelled" }
  | .system e =>
    .ok { tool := s.name, error := some ("failed to execute " ++ s.command ++ ": " ++ e.describe) }
  | .crashed m => .error m

/-- What a run comes to whose report could be collected, or could not. -/
def reported (s : Scanner) (repo : String) (report : Except String String) :
    Except String ToolResult :=
  match report with
  | .error m => .error m
  | .ok text => (s.read text).map fun fs => { tool := s.name, findings := fs.map (localize repo) }

/-- The steps of a run on a repository. The exit code does not matter, because scanners exit with an
error when they find something. -/
def procedure (s : Scanner) (repo : String) (languages : List String) (limit : Duration) :
    Procedure (Except String ToolResult) :=
  match s.args repo languages with
  | .error e => .done (s.failed e)
  | .ok args =>
    .ask (.run ⟨s.command, args, repo, limit⟩) fun
      | .error e => .done (s.failed e)
      | .ok f => (s.collect repo f.stdout).map (s.reported repo)

/-- Runs a scanner on a repository. -/
def run {σ : Type} (s : Scanner) (env : Environment σ) (repo : String) (languages : List String)
    (limit : Duration) (signal : Signal) (outside : σ) :
    (Except String ToolResult × Signal) × σ :=
  (s.procedure repo languages limit).perform env signal outside

end Scanner

end RepoAudit
