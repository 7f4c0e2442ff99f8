import RepoAudit.Language
import RepoAudit.Scanner.Code
import RepoAudit.Scanner.Dependencies
import RepoAudit.Scanner.Secrets

/-!
# The registry of scanners

* `LanguageName` — a language as it is asked for: one of the known ones, or a word.
* `Registry` — scanners in order of registration, each with the languages it is for.
* `Registry.select` — the scanners that apply to some languages.
* `Registry.standard` — all scanners of this library.
-/

namespace RepoAudit

/-- A language as it is asked for. -/
inductive LanguageName where
  | known (l : Language)
  | word (s : String)
  deriving Repr, DecidableEq

namespace LanguageName

/-- The name that is handed to scanners. -/
def plain : LanguageName → String
  | .known l => l.name
  | .word s => s

/-- The name by which languages are compared: words in small letters. -/
def key : LanguageName → String
  | .known l => l.name
  | .word s => Text.lower s

end LanguageName

/-- A registered scanner with the keys of its languages; one without languages applies always. -/
structure Registration where
  scanner : Scanner
  languages : List String

/-- Whether a registration applies whatever the languages are. -/
def Registration.isBaseline (e : Registration) : Bool := e.languages.isEmpty

/-- Scanners in the order in which their names were first registered. -/
structure Registry where
  entries : List Registration := []

namespace Registry

/-- Registers a scanner; a scanner of the same name is replaced where it stands. -/
def insert (r : Registration) : List Registration → List Registration
  | [] => [r]
  | e :: es => if e.scanner.name = r.scanner.name then r :: es else e :: insert r es

/-- Registers a scanner for some languages; a scanner needs a name. -/
def register (r : Registry) (s : Scanner) (languages : List LanguageName) : Option Registry :=
  if s.name = "" then none
  else some ⟨insert ⟨s, languages.map LanguageName.key⟩ r.entries⟩

/-- The scanner of a name. -/
def get? (r : Registry) (name : String) : Option Scanner :=
  (r.entries.find? fun e => e.scanner.name = name).map Registration.scanner

/-- The names in order. -/
def names (r : Registry) : List String := r.entries.map fun e => e.scanner.name

/-- The number of scanners. -/
def size (r : Registry) : Nat := r.entries.length

/-- The names of the scanners that apply always. -/
def baseline (r : Registry) : List String :=
  (r.entries.filter Registration.isBaseline).map fun e => e.scanner.name

/-- The names of the scanners that apply to some languages. -/
def select (r : Registry) (languages : List LanguageName) : List String :=
  let wanted := languages.map LanguageName.key
  (r.entries.filter fun e => e.isBaseline || e.languages.any wanted.contains).map fun e =>
    e.scanner.name

/-- All scanners of this library: four that apply always, then those of single languages. -/
def standard : Registry := ⟨[
  ⟨.trivy, []⟩, ⟨.semgrep, []⟩, ⟨.trufflehog, []⟩, ⟨.gitleaks, []⟩,
  ⟨.govulncheck, ["go"]⟩,
  ⟨.bandit, ["python"]⟩, ⟨.pipAudit, ["python"]⟩, ⟨.safety, ["python"]⟩,
  ⟨.npmAudit, ["javascript", "typescript"]⟩,
  ⟨.cargoAudit, ["rust"]⟩,
  ⟨.bundlerAudit, ["ruby"]⟩, ⟨.brakeman, ["ruby"]⟩]⟩

/-- A registry, or the standard one in place of an empty one. -/
def orStandard (r : Registry) : Registry := if r.entries.isEmpty then standard else r

end Registry

end RepoAudit
