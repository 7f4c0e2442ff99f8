import RepoAudit.Json.Integral
import RepoAudit.Json.Reader

/-!
# Advice

What a model answers: for places in files, what to do about them.

* `unfence` — an answer without the code fence that models like to put around it.
* `Advice.ofJson?` — one piece of advice.
* `Advice.parse?` — all advice of an answer; one malformed piece rejects the whole answer.
-/

namespace RepoAudit

/-- What a model advises for a place. -/
structure Advice where
  filePath : String
  line : Option Int := none
  remediation : String := ""
  codeExample : String := ""
  deriving Repr, DecidableEq, Inhabited

namespace Advice

/-- What opens and closes a code block. -/
def fence : List Char := ['\x60', '\x60', '\x60']

/-- What follows the first line. -/
def afterFirstLine (cs : List Char) : List Char :=
  match Text.cutFirst? ['\n'] cs with
  | some (_, rest) => rest
  | none => []

/-- A text without the fence at its very end. -/
def dropClosing (cs : List Char) : List Char :=
  if fence.isSuffixOf cs then cs.take (cs.length - fence.length) else cs

/-- A text without blanks around it and, when it starts with a fence, without its first line and the
closing fence. -/
def unfenced (cs : List Char) : List Char :=
  let body := Text.trim cs
  if fence.isPrefixOf body then
    Text.trim (dropClosing (Text.trimEnd (afterFirstLine body)))
  else body

/-- An answer without the code fence around it. -/
def unfence (s : String) : String := String.ofList (unfenced s.toList)

/-- A text field that may be missing but not be anything else. -/
def textField? (v : Json.Value) (key : String) : Option String :=
  match Json.Fields.get? key v.fields with
  | none => some ""
  | some (.string s) => some s
  | some _ => none

/-- A line number that may be missing or null. -/
def lineField? (v : Json.Value) (key : String) : Option (Option Int) :=
  match v.field key with
  | .null => some none
  | x => (x.integral.toOption).map some

/-- The advice of an object; it must name a file. -/
def ofJson? : Json.Value → Option Advice
  | v@(.object _) =>
    match v.field "file_path" with
    | .string path => do
      let line ← lineField? v "line_number"
      let remediation ← textField? v "remediation"
      let codeExample ← textField? v "code_example"
      return ⟨path, line, remediation, codeExample⟩
    | _ => none
  | _ => none

/-- The advice of a document: the list in its field for findings, which may be missing. -/
def listOfJson? : Json.Value → Option (List Advice)
  | .object fields =>
    match Json.Fields.get? "findings" fields with
    | none => some []
    | some (.array items) => items.mapM ofJson?
    | some _ => none
  | _ => none

/-- The advice of an answer. -/
def parse? (answer : String) : Option (List Advice) :=
  (Json.parse? .review (unfenced answer.toList)).bind listOfJson?

/-- Whether there is anything to do. -/
def isUseful (a : Advice) : Bool := a.remediation != "" || a.codeExample != ""

/-- The line of a piece of advice, 0 when it has none. -/
def lineOrZero (a : Advice) : Int := a.line.getD 0

end Advice

end RepoAudit
