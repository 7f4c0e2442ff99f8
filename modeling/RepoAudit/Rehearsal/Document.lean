import RepoAudit.Json.Reader
import RepoAudit.Rehearsal.Scenario

/-!
# Rehearsals as documents

What is acted, scripted and furnished can be written down as JSON, so that a rehearsal can be kept in
a file.

* `Document.text` — a text, whole or in pieces.
* `Document.files`, `Document.actor` — files, and a program that is acted.
* `Document.script`, `Document.reaction` — what programs and a model answer.
* `Document.runner`, `Document.reviewer` — who works in a rehearsal, and within which limits.
* `Document.scenario` — a whole service.
-/

namespace RepoAudit.Rehearsal.Document

open Json

/-! ### Plain values -/

/-- A string, or something else in its place. -/
def textOr (v : Value) (other : String) : String :=
  match v with
  | .string s => s
  | _ => other

/-- An integer, or something else in its place. -/
def intOr (v : Value) (other : Int) : Int :=
  match v with
  | .int n => n
  | _ => other

/-- Whether a value is the truth value `true`. -/
def holds : Value → Bool
  | .bool b => b
  | _ => false

/-- Whether there is no value. -/
def isAbsent : Value → Bool
  | .null => true
  | _ => false

/-- A string, if there is one. -/
def text? : Value → Option String
  | .string s => some s
  | _ => none

/-- An integer, if there is one. -/
def int? : Value → Option Int
  | .int n => some n
  | _ => none

/-- The texts of an array. -/
def texts (v : Value) : List String := v.items.map Value.text

/-- A length of time in seconds, or something else in its place. -/
def duration (v : Value) (other : Int) : Duration :=
  match v with
  | .int n => .whole n
  | .real (.finite x) => .decimal x
  | _ => .whole other

/-- A piece of text that is repeated a number of times. -/
def repeated (v : Value) : String :=
  match (v.field "repeat").items with
  | [.string s, .int n] => String.join (List.replicate n.toNat s)
  | _ => ""

mutual

/-- A text: a string, a piece that is repeated, or a list of texts put together. -/
def text : Value → String
  | .string s => s
  | .array vs => textOfPieces vs
  | v => repeated v

/-- Texts put together. -/
def textOfPieces : List Value → String
  | [] => ""
  | v :: vs => text v ++ textOfPieces vs

end

/-! ### Files and programs -/

/-- The bytes of a row of hexadecimal digits. -/
def bytesOfHex : List Char → List UInt8
  | x :: y :: r =>
    UInt8.ofNat (((hexValue? x).getD 0) * 16 + (hexValue? y).getD 0) :: bytesOfHex r
  | _ => []

/-- What stands at a path: a text, or one of the other kinds of entry by its key. -/
def entry (v : Value) : Entry :=
  match v.fields with
  | ("dir", _) :: _ => .directory
  | ("link", x) :: _ => .link x.text
  | ("size", x) :: _ => .file (.zeros (intOr x 0).toNat)
  | ("hex", x) :: _ => .file (.bytes (bytesOfHex x.text.toList))
  | _ => .file (.ofText (text v))

/-- Entries by their paths. -/
def files (v : Value) : List (String × Entry) := v.fields.map fun (k, x) => (k, entry x)

/-- An acted program. -/
def actor (v : Value) : Actor where
  stdout := text (v.field "stdout")
  stderr := text (v.field "stderr")
  exitCode := intOr (v.field "exit") 0
  pause := (duration (v.field "sleep") 0).seconds
  files := files (v.field "files")

/-- A cancel signal: whether it has fired, if there is one. -/
def signal : Value → Signal
  | .bool b => if b then .fired else .quiet
  | _ => .absent

/-! ### Scripts -/

/-- A failure of the system by its number and reason, or by its text alone. -/
def systemError (v : Value) : SystemError :=
  match v.items with
  | [] => .ofText ""
  | [x] => .ofText x.text
  | x :: y :: _ => .numbered (int? x) (text? y)

/-- The failure that a cue ends with. -/
def failure? (v : Value) : Option Execution.Failure :=
  match (v.field "raise").text with
  | "timeout" => some (.timedOut "" (.whole 0) "")
  | "cancelled" => some (.cancelled "" true "")
  | "os" => some (.system (systemError (v.field "os_args")))
  | "crash" => some (.crashed "env bug")
  | _ => none

/-- A cue: a text that is printed, or an object of everything that happens. -/
def cue (v : Value) : Cue :=
  if v.isObject && isAbsent (v.field "repeat") then {
    stdout := text (v.field "stdout"), stderr := text (v.field "stderr")
    exitCode := intOr (v.field "exit") 0, fires := holds (v.field "cancel")
    shutsDown := holds (v.field "shutdown"), cancelsScan := holds (v.field "cancel_scan")
    failure := failure? v }
  else { stdout := text v }

/-- A script: the cues of programs, and files that can be read back. The mark stands for the
directory of the run. -/
def script (outputs readable : Value) : Script where
  cues := outputs.fields.map fun (k, x) => (k, cue x)
  files := readable.fields.map fun (k, x) => (k, text x)
  mark := "$\x7bCLONE\x7d"

/-- What a model does with every request; without a word it has found nothing. -/
def reaction (v : Value) : Reaction where
  fires := holds (v.field "cancel")
  delay := (duration (v.field "delay") 0).seconds
  outcome :=
    match v.field "error" with
    | .null =>
      .ok (match v.field "response" with
        | .null => "\x7b\"findings\": []\x7d"
        | r => text r)
    | e => .error (if e.text = "timeout" then .timedOut else .failed e.text)

/-! ### Findings -/

/-- A raw finding; what is missing is empty. -/
def rawFinding (v : Value) : RawFinding :=
  ⟨(v.field "file_path").text, (v.field "description").text, (v.field "severity").text,
    int? (v.field "line_number"), text? (v.field "rule_id")⟩

/-- The outcome of a tool run. -/
def toolResult (v : Value) : ToolResult where
  tool := (v.field "tool").text
  findings := (v.field "findings").items.map rawFinding
  timedOut := holds (v.field "timed_out")
  error := text? (v.field "error")

/-- The `n`-th of some findings, or the word that names no severity. -/
def finding (n : Nat) (v : Value) : Except String Finding :=
  let word := textOr (v.field "severity") "high"
  match Severity.ofName? word with
  | none => .error word
  | some severity => .ok {
      id := textOr (v.field "id") ("f" ++ toString n), severity := severity
      tool := textOr (v.field "tool") "t", filePath := textOr (v.field "file_path") "a.py"
      description := textOr (v.field "description") "d", line := int? (v.field "line_number")
      remediation := text? (v.field "remediation")
      codeExample := text? (v.field "code_example"), rule := text? (v.field "rule_id") }

/-- Some findings, or the first word that names no severity. -/
def findings (v : Value) : Except String (List Finding) :=
  (v.items.zipIdx).mapM fun (x, n) => finding n x

/-- The counts of a review, if there are any. -/
def reviewStats? (v : Value) : Option ReviewStats :=
  let count (key : String) : Int := intOr (v.field key) 0
  if v.isObject then
    some ⟨count "total_findings", count "reviewable_findings", count "reviewed_findings",
      count "matched_findings", count "files_reviewed", text? (v.field "skipped_reason")⟩
  else none

/-! ### Who works -/

/-- A language by its name or as a word. -/
def language (v : Value) : LanguageName :=
  match v with
  | .string s => .word s
  | _ => (Language.ofName? (v.field "enum").text).elim (.word "") .known

/-- A list of languages. -/
def languages (v : Value) : List LanguageName := v.items.map language

/-- A registry with one more scanner of lines, if it has a name. -/
def register? (r : Registry) (v : Value) : Option Registry :=
  r.register (lineScanner (textOr v (v.field "name").text)) (languages (v.field "languages"))

/-- A registry of scanners of lines; the standard one when none is listed. -/
def registry : Value → Registry
  | .array vs => (vs.foldl (fun r v => (register? r v).getD r) {}).orStandard
  | _ => .standard

/-- A runner. -/
def runner (v : Value) : Runner where
  registry := registry (v.field "registry")
  limit := duration (v.field "timeout") 300
  parallel := intOr (v.field "max_parallel") 1

/-- The limits of a review. -/
def limits (v : Value) : ReviewLimits where
  maxFiles := intOr (v.field "max_files") 10
  maxFindings := intOr (v.field "max_findings") 10
  maxFileSize := intOr (v.field "max_file_size") 51200
  timeout := duration (v.field "request_timeout") 180

/-- A reviewer, whose model is absent unless it is described. -/
def reviewer (v : Value) : Reviewer Record where
  model :=
    match v.field "provider" with
    | .null => none
    | p => some (model (reaction p))
  limits := limits (v.field "config")

/-! ### Services -/

/-- The kind of failure of a checkout with a code; another code stands for a failure of no kind. -/
def fault (code : String) : CheckoutFault :=
  ([.notFound, .privateRepository, .credentials, .network, .timeout, .tooLarge, .path,
    .cleanup].find? fun f => f.code = code).getD .general

/-- What happens in the place of fetching; `faultOf` reads the kind of a failure. -/
def fetchHook (faultOf : String → CheckoutFault) (v : Value) :
    Hook (Except CheckoutStop String) where
  fires := holds (v.field "cancel")
  outcome :=
    if holds (v.field "crash") then some (.error (.crashed "unexpected"))
    else
      match text? (v.field "error"), text? (v.field "path") with
      | some kind, _ => some (.error (.fault (.of (faultOf kind) (v.field "message").text)))
      | none, some path => some (.ok path)
      | none, none => none

/-- What happens in the place of looking for languages. -/
def detectHook (v : Value) : Hook DetectionStop where
  fires := holds (v.field "cancel")
  outcome :=
    match v.field "os_args" with
    | .array vs => some (.system (systemError (.array vs)))
    | _ => if holds (v.field "crash") then some (.crashed "unexpected") else none

/-- A service with its work root. -/
def scenario (faultOf : String → CheckoutFault) (root : String) (v : Value) : Scenario where
  files := files (v.field "files")
  script := script (v.field "outputs") (v.field "env_files")
  runner := { runner v with
    registry := registry (match v.field "registry" with | .null => .array [.string "fake"] | r => r) }
  limiter := some (.ofCapacity (intOr (v.field "queue") 2))
  reviewer := if isAbsent (v.field "reviewer") then none else some (reviewer (v.field "reviewer"))
  checkout := { token := (v.field "github_token").text, root := root }
  retentionDays := intOr (v.field "retention_days") Job.defaultDays
  fetchHook := fetchHook faultOf (v.field "clone")
  detectHook := detectHook (v.field "detector")

end RepoAudit.Rehearsal.Document
