import RepoAudit.Text.Lowercase
import RepoAudit.Text.HiddenTable
import RepoAudit.Text.Surrogate

/-!
# Quoted texts

How a text is shown inside a message: between single quotes, or between double quotes when it holds
a single quote and no double one, with escapes for the chosen quote, the backslash and every
character that has no visible form.

* `quote` — the quoted form of a text.
-/

namespace RepoAudit.Text

/-- Whether a character is shown as itself. -/
def isVisible (c : Char) : Bool :=
  if c.toNat < 0x7F then 32 ≤ c.toNat else !inRanges hiddenRanges c.toNat

/-- A character as it stands between the quotes `q`. -/
def escapeChar (q c : Char) : List Char :=
  if c = q ∨ c = '\\' then ['\\', c]
  else if c = '\n' then ['\\', 'n']
  else if c = '\r' then ['\\', 'r']
  else if c = '\t' then ['\\', 't']
  else if isVisible c then [c]
  else if let some unit := half? c then '\\' :: 'u' :: hexDigits 4 unit
  else if c.toNat < 0x100 then '\\' :: 'x' :: hexDigits 2 c.toNat
  else if c.toNat < 0x10000 then '\\' :: 'u' :: hexDigits 4 c.toNat
  else '\\' :: 'U' :: hexDigits 8 c.toNat

/-- The quote that surrounds a text. -/
def quoteMark (cs : List Char) : Char :=
  if '\'' ∈ cs ∧ '"' ∉ cs then '"' else '\''

/-- The quoted form of a text. -/
def quote (s : String) : String :=
  let q := quoteMark s.toList
  String.ofList (q :: s.toList.flatMap (escapeChar q) ++ [q])

end RepoAudit.Text
