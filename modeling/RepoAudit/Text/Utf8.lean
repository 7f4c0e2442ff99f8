/-!
# Bytes as text

UTF-8 with replacement: reading never fails, because every maximal part of an ill-formed sequence
is read as one U+FFFD.

* `encode` — the bytes of a text.
* `decode` — the text of some bytes, ill-formed parts replaced.
-/

namespace RepoAudit.Text.Utf8

/-- What stands for bytes that are no text. -/
def replacement : Char := '\uFFFD'

/-- The bytes of a text. -/
def encode (cs : List Char) : List UInt8 := cs.flatMap String.utf8EncodeChar

/-- For a lead byte: how many bytes follow it, the bits it contributes, and the range in which the
first byte after it must lie. -/
structure Lead where
  follow : Nat
  bits : Nat
  low : Nat
  high : Nat

/-- The role of a byte at the start of a sequence, `none` when it can start none. Overlong forms,
surrogates and values above U+10FFFF are excluded through the range of the second byte. -/
def lead? (b : UInt8) : Option Lead :=
  let n := b.toNat
  if 0xC2 ≤ n ∧ n ≤ 0xDF then some ⟨1, n - 0xC0, 0x80, 0xBF⟩
  else if n = 0xE0 then some ⟨2, 0, 0xA0, 0xBF⟩
  else if n = 0xED then some ⟨2, 0xD, 0x80, 0x9F⟩
  else if 0xE1 ≤ n ∧ n ≤ 0xEF then some ⟨2, n - 0xE0, 0x80, 0xBF⟩
  else if n = 0xF0 then some ⟨3, 0, 0x90, 0xBF⟩
  else if 0xF1 ≤ n ∧ n ≤ 0xF3 then some ⟨3, n - 0xF0, 0x80, 0xBF⟩
  else if n = 0xF4 then some ⟨3, 4, 0x80, 0x8F⟩
  else none

/-- Where a decoder stands: between characters, or inside a sequence that has given `value` so far
and still needs `left` bytes, the next of them in the stated range. -/
inductive Phase where
  | between
  | inside (value left low high : Nat)

/-- Reads a byte between characters; `done` is the text so far, last character first. -/
def start (done : List Char) (b : UInt8) : Phase × List Char :=
  if b.toNat < 0x80 then (.between, Char.ofNat b.toNat :: done)
  else
    match lead? b with
    | some l => (.inside l.bits l.follow l.low l.high, done)
    | none => (.between, replacement :: done)

/-- Reads one byte. A byte that cannot continue an open sequence closes it as one replacement and
is then read afresh. -/
def step : Phase × List Char → UInt8 → Phase × List Char
  | (.between, done), b => start done b
  | (.inside value left low high, done), b =>
    if low ≤ b.toNat ∧ b.toNat ≤ high then
      let value := value * 64 + (b.toNat - 0x80)
      if left ≤ 1 then (.between, Char.ofNat value :: done)
      else (.inside value (left - 1) 0x80 0xBF, done)
    else start (replacement :: done) b

/-- What a decoder has read when the bytes end; an open sequence is one replacement. -/
def finish : Phase × List Char → List Char
  | (.between, done) => done.reverse
  | (.inside .., done) => (replacement :: done).reverse

/-- The text of the bytes, with one U+FFFD for each maximal ill-formed part. -/
def decode (bs : List UInt8) : List Char := finish (bs.foldl step (.between, []))

/-- The bytes of a string. -/
def bytesOf (s : String) : List UInt8 := encode s.toList

/-- The string that the bytes spell. -/
def textOf (bs : List UInt8) : String := String.ofList (decode bs)

end RepoAudit.Text.Utf8
