import RepoAudit.Address
import RepoAudit.Json.Value

/-!
# Complaints

What a caller is told about an input that is rejected.

* `Complaint` — a code, a message, the part of the input at fault and a hint.
* `Complaint.toJson` — the complaint as it is sent.
* `AddressError.complaint` — the complaint about a repository address.
-/

namespace RepoAudit

/-- A rejected input: the code and message, the part at fault, and what a good input looks like. -/
structure Complaint where
  code : String
  message : String
  field : String
  hint : String
  deriving Repr, DecidableEq

namespace Complaint

/-- The code of a failure that has none of its own. -/
def internalCode : String := "INTERNAL_ERROR"

/-- A complaint; an empty code becomes the internal one. -/
def of (code message : String) (field : String := "repo_url") (hint : String := "") : Complaint :=
  ⟨if code = "" then internalCode else code, message, field, hint⟩

/-- The complaint as an object; the hint appears only when there is one. -/
def toJson (c : Complaint) : Json.Value :=
  let hint := if c.hint = "" then [] else [("example", Json.Value.string c.hint)]
  .object ([("code", .string c.code), ("message", .string c.message), ("field", .string c.field)] ++
    hint)

end Complaint

/-- The complaint about a repository address. -/
def AddressError.complaint (e : AddressError) : Complaint := .of e.code e.message e.field e.hint

end RepoAudit
