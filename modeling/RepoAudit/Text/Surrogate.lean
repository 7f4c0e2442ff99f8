/-!
# Halves of surrogate pairs

A text that is read from escapes may hold half of a surrogate pair on its own, which is no character.
The last 2048 code points for private use stand for such halves; as characters of their own they do
not occur.

* `halfPair`, `half?` — what stands for a half, and the half that a character stands for.
* `encodingError?` — why a text cannot be passed to the system: it holds a half that stands for no
  byte.
* `nameBytes` — the bytes of a name.
-/

namespace RepoAudit.Text

/-- The hexadecimal digits of a number, padded with zeros to `width`. -/
def hexDigits (width n : Nat) : List Char :=
  let ds := Nat.toDigits 16 n
  List.replicate (width - ds.length) '0' ++ ds

/-- What stands for half of a surrogate pair. -/
def halfPair (unit : Nat) : Char := Char.ofNat (unit + 0x102000)

/-- The half of a surrogate pair that a character stands for. -/
def half? (c : Char) : Option Nat :=
  if 0x10F800 ≤ c.toNat then some (c.toNat - 0x102000) else none

/-- Whether a half stands for one byte of a name that is no text. -/
def isStrayByte (unit : Nat) : Bool := 0xDC80 ≤ unit && unit ≤ 0xDCFF

/-- Whether a character has no bytes. -/
def isUnencodable (c : Char) : Bool := (half? c).any fun unit => !isStrayByte unit

/-- The halves that a text begins with. -/
def leadingHalves : List Char → List Nat
  | [] => []
  | c :: cs =>
    match half? c with
    | some unit => unit :: leadingHalves cs
    | none => []

/-- Where the halves stand that have no bytes. -/
def encodingErrorAt (n : Nat) : List Nat → String
  | [unit] =>
    " '\\u" ++ String.ofList (hexDigits 4 unit) ++ "' in position " ++ toString n
  | units => "s in position " ++ toString n ++ "-" ++ toString (n + units.length - 1)

/-- Why a text has no bytes. The halves from the first one without any are to blame. -/
def encodingError? (s : String) : Option String :=
  (s.toList.findIdx? isUnencodable).map fun n =>
    "'utf-8' codec can't encode character" ++ encodingErrorAt n (leadingHalves (s.toList.drop n)) ++
      ": surrogates not allowed"

/-- The bytes of a name. -/
def nameBytes (s : String) : List UInt8 :=
  s.toList.flatMap fun c =>
    match half? c with
    | some unit => [UInt8.ofNat unit]
    | none => String.utf8EncodeChar c

theorem nameBytes_append (a b : String) : nameBytes (a ++ b) = nameBytes a ++ nameBytes b := by
  simp [nameBytes]

end RepoAudit.Text
