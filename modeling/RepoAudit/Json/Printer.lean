import RepoAudit.Json.Value
import RepoAudit.Text.Quoted

/-!
# Writing JSON

* `quoted` — a string with everything beyond printable ASCII escaped.
* `render` — a value on one line.
* `renderIndented` — a value with two spaces of indentation per level.
-/

namespace RepoAudit.Json

/-- A code unit as an escape. -/
def unitEscape (u : Nat) : List Char := '\\' :: 'u' :: Text.hexDigits 4 u

/-- A character inside a written string. -/
def writtenChar (c : Char) : List Char :=
  if c = '"' ∨ c = '\\' then ['\\', c]
  else if c = '\n' then ['\\', 'n']
  else if c = '\r' then ['\\', 'r']
  else if c = '\t' then ['\\', 't']
  else if c = '\x08' then ['\\', 'b']
  else if c = '\x0c' then ['\\', 'f']
  else if 0x20 ≤ c.toNat ∧ c.toNat < 0x7F then [c]
  else if let some unit := Text.half? c then unitEscape unit
  else if c.toNat < 0x10000 then unitEscape c.toNat
  else
    unitEscape (0xD800 + (c.toNat - 0x10000) / 0x400) ++
      unitEscape (0xDC00 + (c.toNat - 0x10000) % 0x400)

/-- A string in double quotes. -/
def quoted (s : String) : String :=
  String.ofList ('"' :: s.toList.flatMap writtenChar ++ ['"'])

/-- A number that is no integer by its spelling. -/
def renderReal : Real → String
  | .finite d => d.render
  | .infinity negative => if negative then "-Infinity" else "Infinity"
  | .notANumber => "NaN"

mutual

/-- A value on one line. -/
def render : Value → String
  | .null => "null"
  | .bool b => if b then "true" else "false"
  | .int n => Decimal.renderInt n
  | .real x => renderReal x
  | .string s => quoted s
  | .array vs => "[" ++ renderItems vs ++ "]"
  | .object fs => "\x7b" ++ renderFields fs ++ "\x7d"

/-- The items of an array on one line. -/
def renderItems : List Value → String
  | [] => ""
  | [v] => render v
  | v :: vs => render v ++ ", " ++ renderItems vs

/-- The fields of an object on one line. -/
def renderFields : List (String × Value) → String
  | [] => ""
  | [(k, v)] => quoted k ++ ": " ++ render v
  | (k, v) :: fs => quoted k ++ ": " ++ render v ++ ", " ++ renderFields fs

end

/-- A line break followed by the indentation of a level. -/
def newLine (level : Nat) : String := String.ofList ('\n' :: List.replicate (2 * level) ' ')

mutual

/-- A value that stands at the given level, on several lines. -/
def renderAt (level : Nat) : Value → String
  | .array [] => "[]"
  | .object [] => "\x7b\x7d"
  | .array (v :: vs) =>
    "[" ++ newLine (level + 1) ++ renderItemsAt (level + 1) (v :: vs) ++ newLine level ++ "]"
  | .object (f :: fs) =>
    "\x7b" ++ newLine (level + 1) ++ renderFieldsAt (level + 1) (f :: fs) ++ newLine level ++ "\x7d"
  | .null => "null"
  | .bool b => if b then "true" else "false"
  | .int n => Decimal.renderInt n
  | .real x => renderReal x
  | .string s => quoted s

/-- Items, each on lines of its own. -/
def renderItemsAt (level : Nat) : List Value → String
  | [] => ""
  | [v] => renderAt level v
  | v :: vs => renderAt level v ++ "," ++ newLine level ++ renderItemsAt level vs

/-- Fields, each on lines of its own. -/
def renderFieldsAt (level : Nat) : List (String × Value) → String
  | [] => ""
  | [(k, v)] => quoted k ++ ": " ++ renderAt level v
  | (k, v) :: fs =>
    quoted k ++ ": " ++ renderAt level v ++ "," ++ newLine level ++ renderFieldsAt level fs

end

/-- A value with two spaces of indentation per level. -/
def renderIndented (v : Value) : String := renderAt 0 v

end RepoAudit.Json
