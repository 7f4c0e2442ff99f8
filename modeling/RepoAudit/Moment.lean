import RepoAudit.Decimal

/-!
# Moments

Points of time as a calendar shows them: a day, the time of the day, and how far the clock is ahead of
universal time, if that is known.

* `Moment` — a point of time.
* `Moment.render`, `Moment.parse?` — its text, and the moment of a text.
* `Moment.addDays?` — a moment some days later, if the calendar has it.
-/

namespace RepoAudit

/-- A day counted from the first of January of the year 1, which is day 1; the microseconds since
midnight; and the seconds by which the clock is ahead of universal time. -/
structure Moment where
  day : Nat
  micros : Nat
  ahead : Option Int := none
  deriving Repr, DecidableEq, Inhabited

namespace Moment

/-! ### The calendar -/

/-- Whether a year has a leap day. -/
def isLeap (year : Nat) : Bool := year % 4 == 0 && (year % 100 != 0 || year % 400 == 0)

/-- The lengths of the months of a year. -/
def monthLengths (year : Nat) : List Nat :=
  [31, if isLeap year then 29 else 28, 31, 30, 31, 30, 31, 31, 30, 31, 30, 31]

/-- The days in the years before a year. -/
def daysBefore (year : Nat) : Nat :=
  let y := year - 1
  y * 365 + y / 4 - y / 100 + y / 400

/-- The last year of the calendar. -/
def maxYear : Nat := 9999

/-- The last day of the calendar. -/
def maxDay : Nat := daysBefore (maxYear + 1)

/-- The day of a date, if there is one. -/
def dayOf? (year month day : Nat) : Option Nat :=
  let lengths := monthLengths year
  match lengths[month - 1]? with
  | none => none
  | some length =>
    if 1 ≤ year ∧ year ≤ maxYear ∧ 1 ≤ month ∧ 1 ≤ day ∧ day ≤ length then
      some (daysBefore year + (lengths.take (month - 1)).foldl (· + ·) 0 + day)
    else none

/-- The month and the day that the `n`-th day of a year is, counted from 0. -/
def monthAndDay (n : Nat) : List Nat → Nat → Nat × Nat
  | [], month => (month, n + 1)
  | length :: rest, month => if n < length then (month, n + 1) else monthAndDay (n - length) rest (month + 1)

/-- The year of a day: the years of whole cycles of 400, 100, 4 years and single years before it,
where the last day of a long cycle belongs to its last year. -/
def yearOf (day : Nat) : Nat :=
  let n := day - 1
  let long := n / 146097
  let n := n % 146097
  let century := min (n / 36524) 3
  let n := n - century * 36524
  let short := n / 1461
  let n := n % 1461
  long * 400 + century * 100 + short * 4 + min (n / 365) 3 + 1

/-- The year, month and day of a day. -/
def dateOf (day : Nat) : Nat × Nat × Nat :=
  let year := yearOf day
  let (month, d) := monthAndDay (day - 1 - daysBefore year) (monthLengths year) 1
  (year, month, d)

/-! ### Arithmetic -/

/-- The microseconds of a day. -/
def microsPerDay : Nat := 86400000000

/-- The most days that can be added or taken away. -/
def maxDays : Int := 999999999

/-- The moment some days later, with the same time of the day. -/
def addDays? (m : Moment) (days : Int) : Option Moment :=
  let day := m.day + days
  if maxDays < days ∨ days < -maxDays ∨ day < 1 ∨ maxDay < day then none
  else some { m with day := day.toNat }

/-- The microseconds since the start of the calendar, in universal time as far as it is known. -/
def absolute (m : Moment) : Int :=
  (m.day * microsPerDay + m.micros : Nat) - m.ahead.getD 0 * 1000000

/-- The whole seconds from one moment to another. -/
def secondsUntil (a b : Moment) : Int := (b.absolute - a.absolute).tdiv 1000000

/-- The same reading of the clock, taken as universal time. -/
def asUniversal (m : Moment) : Moment := { m with ahead := some 0 }

/-! ### Texts -/

/-- The digits of a number with zeros in front up to a width. -/
def padded (width n : Nat) : List Char :=
  let ds := Decimal.digitsOf n
  List.replicate (width - ds.length) '0' ++ ds

/-- The text of the difference from universal time; seconds appear only when there are any. -/
def renderAhead (s : Int) : List Char :=
  let n := s.natAbs
  (if s < 0 then '-' else '+') :: padded 2 (n / 3600) ++ ':' :: padded 2 (n / 60 % 60) ++
    (if n % 60 = 0 then [] else ':' :: padded 2 (n % 60))

/-- The text of a moment: date, time, microseconds when there are any, and the difference from
universal time when it is known. -/
def render (m : Moment) : String :=
  let (y, mo, d) := dateOf m.day
  let s := m.micros / 1000000
  let u := m.micros % 1000000
  String.ofList (padded 4 y ++ '-' :: padded 2 mo ++ '-' :: padded 2 d ++
    'T' :: padded 2 (s / 3600) ++ ':' :: padded 2 (s / 60 % 60) ++ ':' :: padded 2 (s % 60) ++
    (if u = 0 then [] else '.' :: padded 6 u) ++ (m.ahead.elim [] renderAhead))

/-- The number of the first `n` characters when they are digits, and the rest. -/
def digits? (n : Nat) (cs : List Char) : Option (Nat × List Char) :=
  let ds := cs.take n
  if ds.length = n && ds.all Decimal.isDigit then some (Decimal.natOfDigits ds, cs.drop n) else none

/-- A two-digit number below a bound, and the rest. -/
def pair? (bound : Nat) (cs : List Char) : Option (Nat × List Char) :=
  match digits? 2 cs with
  | some (n, r) => if n < bound then some (n, r) else none
  | none => none

/-- The microseconds of a fraction of a second, if one stands here, and the rest. A fraction may have
any number of digits, of which six count. -/
def fraction? : List Char → Option (Nat × List Char)
  | '.' :: r | ',' :: r =>
    let ds := r.takeWhile Decimal.isDigit
    if ds.isEmpty then none
    else some (Decimal.natOfDigits ((ds ++ List.replicate 6 '0').take 6), r.drop ds.length)
  | r => some (0, r)

/-- The seconds and microseconds of `HH[:MM[:SS[.ffffff]]]` and the rest. -/
def clock? (cs : List Char) : Option (Nat × Nat × List Char) := do
  let (h, r) ← pair? 24 cs
  match r with
  | ':' :: r =>
    let (m, r) ← pair? 60 r
    match r with
    | ':' :: r =>
      let (s, r) ← pair? 60 r
      let (u, r) ← fraction? r
      return (h * 3600 + m * 60 + s, u, r)
    | r => return (h * 3600 + m * 60, 0, r)
  | r => return (h * 3600, 0, r)

/-- The difference from universal time that a text spells. -/
def ahead? : List Char → Option (Option Int)
  | [] => some none
  | ['Z'] => some (some 0)
  | '+' :: r =>
    match clock? r with
    | some (s, _, []) => some (some s)
    | _ => none
  | '-' :: r =>
    match clock? r with
    | some (s, _, []) => some (some (-(s : Int)))
    | _ => none
  | _ => none

/-- The moment of a text: a date, and after one more character a time. -/
def parse? (text : String) : Option Moment := do
  let (y, r) ← digits? 4 text.toList
  let r ← if r.head? = some '-' then some (r.drop 1) else none
  let (mo, r) ← digits? 2 r
  let r ← if r.head? = some '-' then some (r.drop 1) else none
  let (d, r) ← digits? 2 r
  let day ← dayOf? y mo d
  match r with
  | [] => return ⟨day, 0, none⟩
  | _ :: r =>
    let (s, u, r) ← clock? r
    let ahead ← ahead? r
    return ⟨day, s * 1000000 + u, ahead⟩

end Moment

end RepoAudit
