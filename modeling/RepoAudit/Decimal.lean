/-!
# Decimal numbers

Numbers as they are written: a sign, digits and a power of ten.

* `Decimal` — such a number.
* `Decimal.compare` — exact comparison of two of them.
* `Decimal.toBinary` — the nearest double, ties to even, as an exact fraction.
* `Decimal.integer?` — the integer that the nearest double is, if it is one.
* `Decimal.render` — the positional or scientific text of a number.
-/

namespace RepoAudit

/-- The number `±coefficient · 10 ^ exponent`. -/
structure Decimal where
  negative : Bool := false
  coefficient : Nat
  exponent : Int := 0
  deriving Repr, DecidableEq, Inhabited

namespace Decimal

/-- Whether a character is an ASCII digit. -/
def isDigit (c : Char) : Bool := '0' ≤ c && c ≤ '9'

/-- The number that a list of ASCII digits spells. -/
def natOfDigits (ds : List Char) : Nat := ds.foldl (fun n c => 10 * n + (c.toNat - 48)) 0

/-- The digits of a number, most significant first. -/
def digitsOf (n : Nat) : List Char := Nat.toDigits 10 n

/-- The decimal text of an integer. -/
def renderInt (n : Int) : String := String.ofList ((if n < 0 then ['-'] else []) ++ digitsOf n.natAbs)

/-- An integer as a decimal. -/
def ofInt (n : Int) : Decimal := ⟨decide (n < 0), n.natAbs, 0⟩

/-- The signed coefficient. -/
def signed (d : Decimal) : Int := if d.negative then -(d.coefficient : Int) else d.coefficient

/-- The coefficient that a number has when its exponent is lowered to `e`. -/
def scaledTo (e : Int) (d : Decimal) : Int := d.signed * (Nat.pow 10 (d.exponent - e).toNat : Nat)

/-- Exact comparison. -/
def compare (a b : Decimal) : Ordering :=
  let e := min a.exponent b.exponent
  Ord.compare (a.scaledTo e) (b.scaledTo e)

/-- Whether `a` is at most `b`. -/
def le (a b : Decimal) : Bool := a.compare b != .gt

/-- Whether `a` is below `b`. -/
def lt (a b : Decimal) : Bool := a.compare b == .lt

/-- The sum of two numbers. -/
def add (a b : Decimal) : Decimal :=
  let e := min a.exponent b.exponent
  let n := a.scaledTo e + b.scaledTo e
  ⟨decide (n < 0), n.natAbs, e⟩

/-- A fraction rounded to the nearest integer, a tie to the even one. -/
def roundHalfEven (num den : Nat) : Nat :=
  let q := num / den
  let r := num % den
  if 2 * r < den then q else if 2 * r > den then q + 1 else if q % 2 = 0 then q else q + 1

/-- The magnitude of the nearest double of `num / den` as `(m, e)` for `m · 2 ^ e`, with `m` below
`2 ^ 53` and `e` at least -1074; `none` when it is infinite. -/
def nearestDouble (num den : Nat) : Option (Nat × Int) :=
  if num = 0 then some (0, 0)
  else
    let guess : Int := (num.log2 : Int) - den.log2 - 53
    let scale (e : Int) : Nat := roundHalfEven (num * Nat.pow 2 (-e).toNat) (den * Nat.pow 2 e.toNat)
    let e0 := max guess (-1074)
    let e1 := if scale e0 ≥ Nat.pow 2 53 then e0 + 1 else e0
    let m := scale e1
    let (m, e) := if m ≥ Nat.pow 2 53 then (m / 2, e1 + 1) else (m, e1)
    if e > 971 then none else some (m, e)

/-- The nearest double of a number: its magnitude as `(m, e)` for `m · 2 ^ e`, or `none` for an
infinity. Exponents far outside the range of doubles are settled without computing the power. -/
def toBinary (d : Decimal) : Option (Nat × Int) :=
  let size := (digitsOf d.coefficient).length + d.exponent
  if d.coefficient = 0 then some (0, 0)
  else if size > 310 then none
  else if size < -330 then some (0, 0)
  else nearestDouble (d.coefficient * Nat.pow 10 d.exponent.toNat) (Nat.pow 10 (-d.exponent).toNat)

/-- The integer that the nearest double is, when it is one. -/
def integer? (d : Decimal) : Option Int :=
  match d.toBinary with
  | none => none
  | some (m, e) =>
    let sign : Int := if d.negative then -1 else 1
    if 0 ≤ e then some (sign * (m * Nat.pow 2 e.toNat : Nat))
    else
      let den := Nat.pow 2 (-e).toNat
      if m % den = 0 then some (sign * (m / den : Nat)) else none

/-- The digits without trailing zeros, with the number of zeros dropped; `ds` is last digit first. -/
def dropZeros : List Char → Nat → List Char × Nat
  | '0' :: r, k => dropZeros r (k + 1)
  | ds, k => (ds, k)

/-- The text of a number with a fraction part: positional between `10 ^ -4` and `10 ^ 16`, and
scientific with a two-digit exponent outside. -/
def render (d : Decimal) : String :=
  let sign := if d.negative then ['-'] else []
  if d.coefficient = 0 then String.ofList (sign ++ ['0', '.', '0'])
  else
    let (back, zeros) := dropZeros (digitsOf d.coefficient).reverse 0
    let ds := back.reverse
    let point : Int := ds.length + (d.exponent + zeros)
    let body :=
      if -3 ≤ point ∧ point ≤ 16 then
        if point ≤ 0 then '0' :: '.' :: List.replicate (-point).toNat '0' ++ ds
        else if (ds.length : Int) ≤ point then
          ds ++ List.replicate (point - ds.length).toNat '0' ++ ['.', '0']
        else ds.take point.toNat ++ '.' :: ds.drop point.toNat
      else
        let e := point - 1
        let es := digitsOf e.natAbs
        ds.take 1 ++ (if ds.length = 1 then [] else '.' :: ds.drop 1) ++
          ['e', if e < 0 then '-' else '+'] ++ List.replicate (2 - es.length) '0' ++ es
    String.ofList (sign ++ body)

end Decimal

end RepoAudit
