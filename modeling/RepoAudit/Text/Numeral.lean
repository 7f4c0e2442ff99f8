import RepoAudit.Decimal
import RepoAudit.Text.Blank

/-!
# Numerals

Integers as people and settings write them.

* `digitValue?` — the value of a decimal digit of any script.
* `underscored?` — the digits of a run in which single underscores may stand between digits.
* `integer?` — an integer between blanks, with an optional sign.
-/

namespace RepoAudit.Text

/-- The digits zero of the scripts beyond ASCII that have decimal digits, in the Unicode character
data, version 14. -/
def digitZeros : List Nat := [
    0x660, 0x6F0, 0x7C0, 0x966, 0x9E6, 0xA66, 0xAE6, 0xB66, 0xBE6, 0xC66, 0xCE6, 0xD66, 0xDE6,
    0xE50, 0xED0, 0xF20, 0x1040, 0x1090, 0x17E0, 0x1810, 0x1946, 0x19D0, 0x1A80, 0x1A90, 0x1B50,
    0x1BB0, 0x1C40, 0x1C50, 0xA620, 0xA8D0, 0xA900, 0xA9D0, 0xA9F0, 0xAA50, 0xABF0, 0xFF10,
    0x104A0, 0x10D30, 0x11066, 0x110F0, 0x11136, 0x111D0, 0x112F0, 0x11450, 0x114D0, 0x11650,
    0x116C0, 0x11730, 0x118E0, 0x11950, 0x11C50, 0x11D50, 0x11DA0, 0x16A60, 0x16AC0, 0x16B50,
    0x1D7CE, 0x1D7D8, 0x1D7E2, 0x1D7EC, 0x1D7F6, 0x1E140, 0x1E2F0, 0x1E950, 0x1FBF0]

/-- The value of a decimal digit of any script. -/
def digitValue? (c : Char) : Option Nat :=
  if '0' ≤ c && c ≤ '9' then some (c.toNat - 48)
  else (digitZeros.find? fun z => z ≤ c.toNat && c.toNat < z + 10).map fun z => c.toNat - z

/-- The value of an ASCII digit. -/
def asciiDigitValue? (c : Char) : Option Nat :=
  if '0' ≤ c && c ≤ '9' then some (c.toNat - 48) else none

/-- Reads digits on top of a value; `afterDigit` says whether a digit came last, since only then an
underscore may stand, and no underscore may come last. -/
def digitRun? (digit : Char → Option Nat) (value : Nat) (afterDigit : Bool) :
    List Char → Option Nat
  | [] => if afterDigit then some value else none
  | c :: r =>
    if c = '_' then if afterDigit then digitRun? digit value false r else none
    else
      match digit c with
      | some d => digitRun? digit (10 * value + d) true r
      | none => none

/-- The number that a non-empty run of digits spells, single underscores between digits passed
over. -/
def underscored? (digit : Char → Option Nat) (cs : List Char) : Option Nat :=
  digitRun? digit 0 false cs

/-- The sign at the start of a text, whether it is a minus, and the rest. -/
def splitSign : List Char → Bool × List Char
  | '-' :: r => (true, r)
  | '+' :: r => (false, r)
  | cs => (false, cs)

/-- An integer with an optional sign. -/
def signed? (digit : Char → Option Nat) (cs : List Char) : Option Int :=
  let (negative, ds) := splitSign cs
  (underscored? digit ds).map fun n => if negative then -(n : Int) else n

/-- The integer that a text spells between blanks, with digits of any script. -/
def integer? (s : String) : Option Int := signed? digitValue? (trim s.toList)

end RepoAudit.Text
