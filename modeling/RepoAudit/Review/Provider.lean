import RepoAudit.Finding
import RepoAudit.Text.Blank
import RepoAudit.Text.Lowercase
import RepoAudit.Text.Quoted
import RepoAudit.Text.Search

/-!
# Providers of models

* `Provider` — a service that answers chat requests: which one, where, and with which model.
* `Provider.request` — the parameters of a request.
* `Provider.complete` — what becomes of a reply: a text, or the reason why there is none.
* `Provider.choose` — the provider that a configuration asks for, if it is complete.
-/

namespace RepoAudit

/-- The kinds of provider. -/
inductive ProviderKind where
  | openai
  | ollama
  deriving Repr, DecidableEq

/-- The written name of a kind. -/
def ProviderKind.name : ProviderKind → String
  | .openai => "openai"
  | .ollama => "ollama"

/-- A provider, with the number of tokens it has used so far. -/
structure Provider where
  kind : ProviderKind
  key : String
  model : String
  maxTokens : Int := 4000
  baseUrl : Option String := none
  usedTokens : Int := 0
  deriving Repr, DecidableEq

/-- What a service sends back: an error text, or texts to choose from and a count of tokens. -/
inductive ChatReply where
  | failed (message : String)
  | answered (choices : List (Option String)) (tokens : Option Int)
  deriving Repr, DecidableEq

namespace Provider

/-- The end of the address of every chat endpoint. -/
def version : List Char := "/v1".toList

/-- An address without the slashes at its end. -/
def dropSlashes (cs : List Char) : List Char := (cs.reverse.dropWhile (· == '/')).reverse

/-- The chat endpoint of a local service, as it may be written with or without its end. -/
def endpointOf (base : List Char) : List Char :=
  if version.isSuffixOf base then base else dropSlashes base ++ version

/-- The chat endpoint of a local service. -/
def endpoint (base : String) : String := String.ofList (endpointOf base.toList)

/-- A provider on the open net. -/
def openai (key : String) (model : String := "gpt-4o") (maxTokens : Int := 4000)
    (baseUrl : Option String := none) : Provider :=
  { kind := .openai, key := key, model := model, maxTokens := maxTokens, baseUrl := baseUrl }

/-- A provider on a local service. It needs no key, but one must be sent. -/
def ollama (base : String) (model : String := "llama3") (maxTokens : Int := 4000) : Provider :=
  { kind := .ollama, key := "ollama", model := model, maxTokens := maxTokens
    baseUrl := some (endpoint base) }

/-- Whether a model reasons before it answers; such a model takes no temperature. -/
def isReasoning (model : String) : Bool :=
  let m := Text.lower model
  Text.mentions m "gpt-5" || Text.mentions m "o1" || Text.mentions m "o3"

/-- How a provider is shown; the key never is. -/
def shown (p : Provider) : String :=
  let type := match p.kind with
    | .openai => "OpenAIProvider"
    | .ollama => "OllamaProvider"
  type ++ "(model=" ++ Text.quote p.model ++ ")"

/-- A message of a request. -/
def message (role content : String) : Json.Value :=
  .object [("role", .string role), ("content", .string content)]

/-- The temperature of requests. -/
def temperature : Decimal := ⟨false, 3, -1⟩

/-- The parameters of a request. -/
def request (p : Provider) (system user : String) : Json.Value :=
  let common := [("model", Json.Value.string p.model),
    ("messages", .array [message "system" system, message "user" user])]
  let warmth := [("max_tokens", Json.Value.int p.maxTokens),
    ("temperature", .real (.finite temperature))]
  match p.kind with
  | .ollama => .object (common ++ warmth)
  | .openai =>
    if isReasoning p.model then .object (common ++ [("max_completion_tokens", .int p.maxTokens)])
    else
      .object (common ++ [("response_format", .object [("type", .string "json_object")])] ++ warmth)

/-- The text of a reply, or the reason why there is none; used tokens are counted either way. -/
def complete (p : Provider) (reply : ChatReply) : Except String String × Provider :=
  match reply with
  | .failed m => (.error (p.kind.name ++ " request failed: " ++ m), p)
  | .answered choices tokens =>
    let p := { p with usedTokens := p.usedTokens + tokens.getD 0 }
    match choices with
    | [] => (.error (p.kind.name ++ " returned no choices"), p)
    | choice :: _ =>
      if choice.getD "" = "" then (.error (p.kind.name ++ " returned empty content"), p)
      else (.ok (choice.getD ""), p)

/-- What a configuration says about providers. -/
structure Choice where
  provider : String := "openai"
  openaiKey : String := ""
  openaiModel : String := "gpt-4o"
  ollamaUrl : String := "http://ollama:11434"
  ollamaModel : String := "llama3"

/-- The provider that a configuration asks for; none when it is switched off, unknown or lacks what
it needs. -/
def choose (c : Choice) : Option Provider :=
  match Text.lower (Text.strip c.provider) with
  | "openai" => if c.openaiKey = "" then none else some (openai c.openaiKey c.openaiModel)
  | "ollama" => if c.ollamaUrl = "" then none else some (ollama c.ollamaUrl c.ollamaModel)
  | _ => none

end Provider

end RepoAudit
