import RepoAudit.Text.Quoted

/-!
# Identifiers

Names for jobs and findings: 128 bits as 32 hexadecimal digits in five groups, of which a few bits
are fixed to mark an identifier that is drawn at random.

* `Identifier.ofNumber` — the identifier of a number.
* `Identifier.hasForm`, `Identifier.isValid` — whether a text has the groups of digits, and whether
  it is marked as well.
* `Identifier.ofPair` — the identifier of the `n`-th thing that belongs to another.
-/

namespace RepoAudit.Identifier

/-- The lengths of the groups. -/
def groups : List Nat := [8, 4, 4, 4, 12]

/-- The digits in groups with hyphens between them. -/
def grouped : List Nat → List Char → List Char
  | [], _ => []
  | [n], ds => ds.take n
  | n :: ns, ds => ds.take n ++ '-' :: grouped ns (ds.drop n)

/-- The 32 digits of a number with the marking digits put in: a 4 at the thirteenth place, and one of
`8`, `9`, `a`, `b` at the seventeenth. -/
def digits (n : Nat) : List Char :=
  let ds := Text.hexDigits 30 (n % Nat.pow 16 30)
  let variant := ((['8', '9', 'a', 'b'])[n / Nat.pow 16 30 % 4]?).getD '8'
  ds.take 12 ++ '4' :: (ds.drop 12).take 3 ++ variant :: ds.drop 15

/-- The identifier of a number. -/
def ofNumber (n : Nat) : String := String.ofList (grouped groups (digits n))

/-- The identifier of the `n`-th thing that belongs to the thing with a serial number. -/
def ofPair (serial n : Nat) : String := ofNumber (serial * Nat.pow 2 40 + n)

/-- A lower-case hexadecimal digit. -/
def isHexDigit (c : Char) : Bool := ('0' ≤ c && c ≤ '9') || ('a' ≤ c && c ≤ 'f')

/-- The digits of a text that may be an identifier. -/
def digitsOf (cs : List Char) : List Char := cs.filter (· != '-')

/-- Whether a text has 32 digits in the groups of an identifier. -/
def hasForm (cs : List Char) : Bool :=
  let ds := digitsOf cs
  ds.length == 32 && cs == grouped groups ds && ds.all isHexDigit

/-- Whether a text is an identifier. -/
def isValid (s : String) : Bool :=
  let ds := digitsOf s.toList
  hasForm s.toList && ds[12]? == some '4' && ['8', '9', 'a', 'b'].contains ((ds[16]?).getD ' ')

end RepoAudit.Identifier
