import RepoAudit.Json.Reader
import RepoAudit.Service.Basic

/-!
# The web interface

Requests to the scan service by method and path, answered in JSON.

* `Http.Request`, `Http.Response` — what comes in and what goes out.
* `Http.pathOf` — the path of a request target: without query, dot segments and escapes.
* `Http.routes` — the paths that are known and the methods that each one takes.
* `Http.respond` — the answer to a request.
-/

namespace RepoAudit.Http

/-- A request. -/
structure Request where
  method : String
  target : String
  body : String := ""
  deriving Repr

/-- An answer: a status and a document. -/
structure Response where
  status : Nat
  body : Json.Value
  deriving Repr

/-- The version of the interface. -/
def version : String := "1.0.0"

/-- The title of the interface. -/
def title : String := "reposcan"

/-! ### Paths -/

/-- A path without `.` and with every `..` taking back the segment before it. -/
def dropDots (parts : List String) : List String :=
  (parts.foldl (fun out part =>
    if part = "." then out
    else if part = ".." then if out = [""] then out else out.drop 1
    else part :: out) ([] : List String)).reverse

/-- The bytes of a text in which a percent sign and two hexadecimal digits stand for one byte. -/
def unescape : List Char → List UInt8
  | '%' :: a :: b :: r =>
    match Json.hexValue? a, Json.hexValue? b with
    | some x, some y => UInt8.ofNat (16 * x + y) :: unescape r
    | _, _ => Text.Utf8.encode ['%'] ++ unescape (a :: b :: r)
  | c :: r => Text.Utf8.encode [c] ++ unescape r
  | [] => []
termination_by cs => cs.length

/-- The path of a request target. -/
def pathOf (target : String) : String :=
  let cs := target.toList.takeWhile fun c => c != '?' && c != '#'
  Text.Utf8.textOf (unescape (Path.ofParts (dropDots (Path.parts (String.ofList cs)))).toList)

/-! ### Routes -/

/-- What a request asks for. -/
inductive Route where
  | documentation
  | start
  | configuration
  | job (id : String)
  | cancel (id : String)
  | root
  | health
  deriving Repr, DecidableEq

/-- A path without one line feed at its end, which paths are matched without. -/
def dropNewline (path : String) : String :=
  match path.toList.reverse with
  | '\n' :: r => String.ofList r.reverse
  | _ => path

/-- The segment of a path between two texts. -/
def segment? (before after path : String) : Option String :=
  let cs := path.toList
  if before.toList.isPrefixOf cs && after.toList.isSuffixOf cs &&
      before.length + after.length < cs.length then
    let id := (cs.drop before.length).take (cs.length - before.length - after.length)
    if id.contains '/' then none else some (String.ofList id)
  else none

/-- The routes of a path in the order in which they are tried, each with its method. -/
def routes (path : String) : List (String × Route) :=
  let plain := dropNewline path
  let when (b : Bool) (r : String × Route) : List (String × Route) := if b then [r] else []
  when (["/openapi.json", "/docs", "/docs/oauth2-redirect", "/redoc"].contains plain)
      ("GET", .documentation) ++
    when (plain = "/api/scan") ("POST", .start) ++
    when (plain = "/api/scan/config") ("GET", .configuration) ++
    ((segment? "/api/scan/" "" path).elim [] fun id => [("GET", .job id)]) ++
    ((segment? "/api/scan/" "/cancel" plain).elim [] fun id => [("POST", .cancel id)]) ++
    when (plain = "/") ("GET", .root) ++
    when (plain = "/health") ("GET", .health)

/-- A path with a slash at its end taken away or put there. -/
def otherSpelling (path : String) : String :=
  match path.toList.reverse with
  | '/' :: r => String.ofList (r.dropWhile (· == '/')).reverse
  | _ => path ++ "/"

/-- The routes of a path. A path without any is tried in its other spelling. -/
def routesOf (path : String) : List (String × Route) :=
  let direct := routes path
  if direct.isEmpty && path ≠ "/" then routes (otherSpelling path) else direct

/-! ### Answers -/

/-- An answer that says in words what is wrong. -/
def problem (status : Nat) (detail : String) : Response :=
  ⟨status, .object [("detail", .string detail)]⟩

/-- An answer to a body that cannot be taken: what is wrong and where. -/
def malformed (place : List String) (type : String) : Response :=
  ⟨422, .object [("detail", .array [.object [("type", .string type),
    ("loc", .array (place.map .string))]])]⟩

/-- The answer when there is no service. -/
def unavailable : Response := problem 503 "Scan service is not available"

/-- The answer when there is no job of an identifier. -/
def unknownJob : Response := problem 404 "Scan job not found"

/-- What a body holds: nothing, no JSON at all, or a value. -/
inductive Body where
  | missing
  | invalid
  | value (v : Json.Value)
  deriving Repr

/-- The content of a body; a byte order mark in front is passed over, and null counts as nothing. -/
def readBody (body : String) : Body :=
  let cs := match body.toList with
    | '\uFEFF' :: r => r
    | cs => cs
  if cs.isEmpty then .missing
  else
    match Json.parse? .report cs with
    | none => .invalid
    | some .null => .missing
    | some v => .value v

/-- The address that a request for a scan names, or the answer to a request that names none. -/
def addressOf : Body → Except Response String
  | .missing => .error (malformed ["body"] "missing")
  | .invalid => .error (malformed ["body"] "json_invalid")
  | .value v =>
    if !v.isObject then .error (malformed ["body"] "model_attributes_type")
    else
      match Json.Fields.get? "repo_url" v.fields with
      | none => .error (malformed ["body", "repo_url"] "missing")
      | some (.string s) => .ok s
      | some _ => .error (malformed ["body", "repo_url"] "string_type")

/-- The answer to the start of a scan. -/
def startedJob (j : Job) : Response := ⟨202, .object [("id", .string j.id),
  ("status", .string j.status.name), ("repo_url", .string j.address),
  ("created_at", Job.jsonMoment j.created)]⟩

variable {σ : Type}

/-- Answers a request for a scan. Only a defect has no answer. -/
def startScan (now : Moment) (svc : Option (Service σ)) (body : Body) :
    Except StartError Response × Option (Service σ) :=
  match body, svc with
  | .invalid, _ => (.ok (malformed ["body"] "json_invalid"), svc)
  | _, none => (.ok unavailable, none)
  | body, some s =>
    match addressOf body with
    | .error r => (.ok r, svc)
    | .ok address =>
      match s.start now address with
      | (.ok j, s) => (.ok (startedJob j), some s)
      | (.error (.address e), s) =>
        (.ok ⟨400, .object [("detail", e.complaint.toJson)]⟩, some s)
      | (.error e, s) => (.error e, some s)

/-- Answers a request that has a route. -/
def answer (now : Moment) (svc : Option (Service σ)) (body : String) :
    Route → Except StartError Response × Option (Service σ)
  | .root => (.ok ⟨200, .object [("message", .string "reposcan security scanning API"),
      ("docs", .string "/docs"), ("version", .string version)]⟩, svc)
  | .health => (.ok ⟨200, .object [("status", .string "healthy")]⟩, svc)
  | .documentation => (.ok ⟨200, .null⟩, svc)
  | .start => startScan now svc (readBody body)
  | .configuration =>
    (.ok (svc.elim unavailable fun s => ⟨200, s.configuration⟩), svc)
  | .job id =>
    match svc with
    | none => (.ok unavailable, none)
    | some s =>
      match s.get id with
      | .ok j => (.ok ⟨200, j.toJson⟩, svc)
      | .error _ => (.ok unknownJob, svc)
  | .cancel id =>
    match svc with
    | none => (.ok unavailable, none)
    | some s =>
      match s.cancel id with
      | (.ok b, s) =>
        (.ok ⟨202, .object [("id", .string id), ("cancelled", .bool b)]⟩, some s)
      | (.error _, s) => (.ok unknownJob, some s)

/-- Answers a request: the first route of its path that takes its method. -/
def respond (now : Moment) (svc : Option (Service σ)) (r : Request) :
    Except StartError Response × Option (Service σ) :=
  match routesOf (pathOf r.target) with
  | [] => (.ok (problem 404 "Not Found"), svc)
  | known =>
    match known.lookup (String.ofList (r.method.toList.map Char.toUpper)) with
    | some route => answer now svc r.body route
    | none => (.ok (problem 405 "Method Not Allowed"), svc)

end RepoAudit.Http
