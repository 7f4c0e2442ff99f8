import RepoAudit.Checkout
import RepoAudit.Json.Integral
import RepoAudit.Review.Basic
import RepoAudit.Review.Provider
import RepoAudit.Runner
import RepoAudit.Text.Order

/-!
# Settings

The configuration of the whole program, read from the environment.

* `TextSetting`, `NumberSetting` — the settings by kind, each with a name and a default.
* `Settings.load` — the settings of an environment, or every setting that cannot be read.
* `Settings.databaseUrl` and what follows — what the settings mean for the parts of the program.
-/

namespace RepoAudit

/-- The settings that are texts. -/
inductive TextSetting where
  | databaseUrl
  | postgresHost
  | postgresPort
  | postgresUser
  | postgresPassword
  | postgresDatabase
  | githubToken
  | cloneDirectory
  | scannerContainer
  | provider
  | openaiKey
  | openaiModel
  | ollamaUrl
  | ollamaModel
  | logLevel
  deriving Repr, DecidableEq

/-- The settings that are integers. -/
inductive NumberSetting where
  | retentionDays
  | maxRepositoryMegabytes
  | cloneTimeout
  | toolTimeout
  | toolParallel
  | reviewMaxFiles
  | reviewMaxFindings
  | requestTimeout
  | maxConcurrent
  | scanWorkers
  deriving Repr, DecidableEq

namespace TextSetting

/-- The name in the environment. -/
def name : TextSetting → String
  | .databaseUrl => "DATABASE_URL"
  | .postgresHost => "POSTGRES_HOST"
  | .postgresPort => "POSTGRES_PORT"
  | .postgresUser => "POSTGRES_USER"
  | .postgresPassword => "POSTGRES_PASSWORD"
  | .postgresDatabase => "POSTGRES_DB"
  | .githubToken => "GITHUB_TOKEN"
  | .cloneDirectory => "CLONE_TEMP_DIR"
  | .scannerContainer => "SCANNER_CONTAINER"
  | .provider => "AI_PROVIDER"
  | .openaiKey => "OPENAI_API_KEY"
  | .openaiModel => "OPENAI_MODEL"
  | .ollamaUrl => "OLLAMA_BASE_URL"
  | .ollamaModel => "OLLAMA_MODEL"
  | .logLevel => "LOG_LEVEL"

/-- The value when nothing is given. -/
def standard : TextSetting → String
  | .postgresHost => "localhost"
  | .postgresPort => "5432"
  | .postgresUser => "reposcan"
  | .postgresPassword => "reposcan_secret"
  | .postgresDatabase => "reposcan"
  | .provider => "openai"
  | .openaiModel => "gpt-4o"
  | .ollamaUrl => "http://ollama:11434"
  | .ollamaModel => "llama3"
  | .logLevel => "INFO"
  | _ => ""

/-- All settings that are texts. -/
def all : List TextSetting := [.databaseUrl, .postgresHost, .postgresPort, .postgresUser,
  .postgresPassword, .postgresDatabase, .githubToken, .cloneDirectory, .scannerContainer, .provider,
  .openaiKey, .openaiModel, .ollamaUrl, .ollamaModel, .logLevel]

end TextSetting

namespace NumberSetting

/-- The name in the environment. -/
def name : NumberSetting → String
  | .retentionDays => "JOB_RETENTION_DAYS"
  | .maxRepositoryMegabytes => "MAX_REPO_SIZE_MB"
  | .cloneTimeout => "CLONE_TIMEOUT_SECONDS"
  | .toolTimeout => "TOOL_TIMEOUT_SECONDS"
  | .toolParallel => "TOOL_MAX_PARALLEL"
  | .reviewMaxFiles => "AI_REVIEW_MAX_FILES"
  | .reviewMaxFindings => "AI_REVIEW_MAX_FINDINGS"
  | .requestTimeout => "AI_REQUEST_TIMEOUT_SECONDS"
  | .maxConcurrent => "MAX_CONCURRENT_REQUESTS"
  | .scanWorkers => "SCAN_WORKERS"

/-- The value when nothing is given. -/
def standard : NumberSetting → Int
  | .retentionDays => 7
  | .maxRepositoryMegabytes => 500
  | .cloneTimeout => 300
  | .toolTimeout => 300
  | .toolParallel => 1
  | .reviewMaxFiles => 10
  | .reviewMaxFindings => 10
  | .requestTimeout => 180
  | .maxConcurrent => 5
  | .scanWorkers => 4

/-- All settings that are integers. -/
def all : List NumberSetting := [.retentionDays, .maxRepositoryMegabytes, .cloneTimeout,
  .toolTimeout, .toolParallel, .reviewMaxFiles, .reviewMaxFindings, .requestTimeout, .maxConcurrent,
  .scanWorkers]

end NumberSetting

/-- The values of all settings. -/
structure Settings where
  text : TextSetting → String := TextSetting.standard
  number : NumberSetting → Int := NumberSetting.standard

/-- Why the value of a setting cannot be taken. -/
inductive SettingProblem where
  | noText
  | noInteger (e : Json.NotIntegral)
  deriving Repr, DecidableEq

/-- The name under which a problem is reported. -/
def SettingProblem.name : SettingProblem → String
  | .noText => "string_type"
  | .noInteger .kind => "int_type"
  | .noInteger .spelling => "int_parsing"
  | .noInteger .fraction => "int_from_float"
  | .noInteger .size => "int_parsing_size"
  | .noInteger .notFinite => "finite_number"

namespace Settings

/-- What is given for a setting: directly, or by a variable of the environment, whose name may be
written in any letter case. -/
def given? (vars : List (String × String)) (direct : Json.Fields) (name : String) :
    Option Json.Value :=
  match Json.Fields.get? name direct with
  | some v => some v
  | none =>
    (vars.reverse.find? fun (k, _) => Text.lower k = Text.lower name).map fun (_, v) =>
      .string v

/-- The text of a setting. -/
def readText (standard : String) : Option Json.Value → Except SettingProblem String
  | none => .ok standard
  | some (.string s) => .ok s
  | some _ => .error .noText

/-- The integer of a setting. -/
def readNumber (standard : Int) : Option Json.Value → Except SettingProblem Int
  | none => .ok standard
  | some v => v.integral.mapError SettingProblem.noInteger

/-- The problem of a reading, if it has one. -/
def problem? {α : Type} (name : String) : Except SettingProblem α → Option (String × SettingProblem)
  | .ok _ => none
  | .error p => some (name, p)

/-- The settings of an environment and of what is given directly, or all that cannot be read, in
order of their names. -/
def load (vars : List (String × String)) (direct : Json.Fields) :
    Except (List (String × SettingProblem)) Settings :=
  let text (k : TextSetting) := readText k.standard (given? vars direct k.name)
  let number (k : NumberSetting) := readNumber k.standard (given? vars direct k.name)
  let problems := TextSetting.all.filterMap (fun k => problem? k.name (text k)) ++
    NumberSetting.all.filterMap fun k => problem? k.name (number k)
  if problems.isEmpty then
    .ok { text := fun k => (text k).toOption.getD k.standard
          number := fun k => (number k).toOption.getD k.standard }
  else .error (problems.mergeSort fun a b => Text.le a.1 b.1)

/-- All settings with their names. -/
def toJson (s : Settings) : Json.Value :=
  .object (TextSetting.all.map (fun k => (k.name, .string (s.text k))) ++
    NumberSetting.all.map fun k => (k.name, .int (s.number k)))

/-- The address of the database: as it is given, or put together from its parts. -/
def databaseUrl (s : Settings) : String :=
  let given := s.text .databaseUrl
  if given ≠ "" then given
  else
    "postgresql+psycopg://" ++ s.text .postgresUser ++ ":" ++ s.text .postgresPassword ++ "@" ++
      s.text .postgresHost ++ ":" ++ s.text .postgresPort ++ "/" ++ s.text .postgresDatabase

/-- The work root for checkouts, if one is given. -/
def cloneDirectory? (s : Settings) : Option String := Finding.nonEmpty? (some (s.text .cloneDirectory))

/-- How repositories are fetched; `temporary` is the work root when none is given. -/
def checkout (s : Settings) (temporary : String) : Checkout.Config where
  token := s.text .githubToken
  maxMegabytes := s.number .maxRepositoryMegabytes
  limit := .whole (s.number .cloneTimeout)
  root := s.cloneDirectory?.getD temporary

/-- Where scanners run. -/
def place (s : Settings) : Place := .ofContainer (s.text .scannerContainer)

/-- How scanners run. -/
def runner (s : Settings) : Runner where
  registry := .standard
  limit := .whole (s.number .toolTimeout)
  parallel := s.number .toolParallel

/-- The limits of reviews. -/
def reviewLimits (s : Settings) : ReviewLimits where
  maxFiles := s.number .reviewMaxFiles
  maxFindings := s.number .reviewMaxFindings
  timeout := .whole (s.number .requestTimeout)

/-- The provider of the review model, if there is one. -/
def provider? (s : Settings) : Option Provider :=
  Provider.choose ⟨s.text .provider, s.text .openaiKey, s.text .openaiModel, s.text .ollamaUrl,
    s.text .ollamaModel⟩

/-- The limiter that scanners and reviews share. -/
def limiter (s : Settings) : Limiter := .ofCapacity (s.number .maxConcurrent)

end Settings

end RepoAudit
