import RepoAudit.Registry
import RepoAudit.Setting

/-!
# Running scanners on a repository

* `Runner` — which scanners there are, how long each may run and how many may run at once.
* `Runner.procedure` — the steps of one scanner, whatever goes wrong in them.
* `Runner.runScanner` — one scanner by name, inside a slot of the limiter. Whatever goes wrong is
  part of the result.
* `Runner.runScanners` — several of them; one result per name, in the order of the names.
-/

namespace RepoAudit

/-- The configuration of a runner. -/
structure Runner where
  registry : Registry
  limit : Duration := .whole 300
  parallel : Int := 1

namespace Runner

variable {σ : Type}

/-- The result of a scanner, in which a defect is an error. -/
def absorbed (s : Scanner) : Except String ToolResult → ToolResult
  | .ok result => result
  | .error m => { tool := s.name, error := some ("unexpected error: " ++ m) }

/-- The steps of running a scanner, whose defects are absorbed. -/
def procedure (r : Runner) (s : Scanner) (repo : String) (languages : List LanguageName) :
    Procedure ToolResult :=
  (s.procedure repo (languages.map LanguageName.plain) r.limit).map (absorbed s)

/-- Runs a scanner; a defect becomes an error of the result. -/
def runSafely (r : Runner) (env : Environment σ) (s : Scanner) (repo : String)
    (languages : List LanguageName) (st : Setting σ) : ToolResult × Setting σ :=
  let ((result, signal), outside) :=
    (r.procedure s repo languages).perform env st.signal st.outside
  (result, { st with signal := signal, outside := outside })

/-- Runs the scanner of a name, holding a slot meanwhile. A signal that has fired keeps it from
taking one. -/
def runScanner (r : Runner) (env : Environment σ) (name repo : String)
    (languages : List LanguageName) (st : Setting σ) : ToolResult × Setting σ :=
  match r.registry.get? name with
  | none => ({ tool := name, error := some ("unknown tool: " ++ name) }, st)
  | some s =>
    st.inSlot { tool := name, error := some "cancelled" } (r.runSafely env s repo languages)

/-- Runs scanners one after the other. Once the signal has fired, no further one is started when
`watchful` says so. -/
def runInOrder (r : Runner) (env : Environment σ) (watchful : Bool) (repo : String)
    (languages : List LanguageName) : List String → Setting σ → List ToolResult × Setting σ
  | [], st => ([], st)
  | name :: names, st =>
    let (result, st) :=
      if watchful && st.signal.isFired then
        ({ tool := name, error := some "cancelled" }, st)
      else r.runScanner env name repo languages st
    let (results, st) := runInOrder r env watchful repo languages names st
    (result :: results, st)

/-- Whether the scanners of some names run one after the other by design. -/
def isSequential (r : Runner) (names : List String) : Bool :=
  r.parallel ≤ 1 || names.length ≤ 1

/-- Runs the scanners of the names, or those that apply to the languages. Scanners that may run at
once are started whatever the signal says. -/
def runScanners (r : Runner) (env : Environment σ) (repo : String)
    (languages : List LanguageName) (names : Option (List String)) (st : Setting σ) :
    List ToolResult × Setting σ :=
  let names := names.getD (r.registry.select languages)
  r.runInOrder env (r.isSequential names) repo languages names st

end Runner

end RepoAudit
