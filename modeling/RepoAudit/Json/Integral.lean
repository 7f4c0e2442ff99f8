import RepoAudit.Json.Value
import RepoAudit.Text.Numeral
import RepoAudit.Text.Search

/-!
# Integers read leniently

Where an integer is wanted, other spellings of one are taken too.

* `NotIntegral` — why a value spells no integer.
* `integral?` — the integer that a text spells.
* `Value.integral` — the integer that a value stands for.
-/

namespace RepoAudit.Json

/-- Why a value spells no integer. -/
inductive NotIntegral where
  | kind
  | spelling
  | fraction
  | size
  | notFinite
  deriving Repr, DecidableEq

/-- A blank that is none of the four ASCII separators. -/
def isSpace (c : Char) : Bool := Text.isBlank c && !(28 ≤ c.toNat && c.toNat ≤ 31)

/-- A text without spaces at either end. -/
def trimSpaces (cs : List Char) : List Char :=
  (((cs.dropWhile isSpace).reverse).dropWhile isSpace).reverse

/-- A text without a fraction part of zeros only; a bare point is kept. -/
def dropZeroFraction (cs : List Char) : List Char :=
  match Text.cutFirst? ['.'] cs with
  | some (whole, fraction) =>
    if !fraction.isEmpty && fraction.all (· == '0') then whole else cs
  | none => cs

/-- The longest spelling that is read. -/
def maxSpelling : Nat := 4300

/-- The integer that a text spells: ASCII digits with single underscores between them, an optional
sign and an optional fraction part of zeros. -/
def integral? (s : String) : Except NotIntegral Int :=
  let cs := trimSpaces s.toList
  if maxSpelling < cs.length then .error .size
  else
    match Text.signed? Text.asciiDigitValue? (dropZeroFraction cs) with
    | some n => .ok n
    | none => .error .spelling

/-- The first integer above those that have a signed representation in 64 bits. -/
def wordBound : Int := 9223372036854775808

/-- Whether an integer has a signed representation in 64 bits. -/
def fitsInWord (n : Int) : Bool := -wordBound ≤ n && n < wordBound

/-- The integer that a value stands for: an integer, a number without fraction, a truth value or a
text. -/
def Value.integral : Value → Except NotIntegral Int
  | .int n => .ok n
  | .bool b => .ok (if b then 1 else 0)
  | .real (.finite d) =>
    match d.toBinary with
    | none => .error .notFinite
    | some _ =>
      match d.integer? with
      | none => .error .fraction
      | some n => if fitsInWord n then .ok n else .error .size
  | .real _ => .error .notFinite
  | .string s => integral? s
  | _ => .error .kind

end RepoAudit.Json
