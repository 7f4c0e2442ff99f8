/-!
# Searching and replacing in a text

Texts are lists of characters here.

* `occursIn p s` — `p` stands somewhere in `s`.
* `cutFirst?`, `cutLast?` — what stands before and after an occurrence of a pattern.
* `replaceAll old new s` — every leftmost, non-overlapping occurrence of `old` exchanged.
* `splitOn sep s` — the pieces between the separators.
-/

namespace RepoAudit.Text

/-- Whether `p` occurs in `s` as consecutive characters. -/
def occursIn (p : List Char) : List Char → Bool
  | [] => p.isEmpty
  | c :: r => p.isPrefixOf (c :: r) || occursIn p r

/-- The texts before and after the first occurrence of `p`. -/
def cutFirst? (p : List Char) : List Char → Option (List Char × List Char)
  | [] => if p.isEmpty then some ([], []) else none
  | c :: r =>
    if p.isPrefixOf (c :: r) then some ([], (c :: r).drop p.length)
    else (cutFirst? p r).map fun (before, after) => (c :: before, after)

/-- The texts before and after the last occurrence of `p`. -/
def cutLast? (p : List Char) (s : List Char) : Option (List Char × List Char) :=
  (cutFirst? p.reverse s.reverse).map fun (after, before) => (before.reverse, after.reverse)

/-- The scan behind `replaceAll`: `skip` characters are still part of an exchanged occurrence, and
`done` holds what has been written so far, last character first. -/
def replaceScan (old new : List Char) (skip : Nat) (done : List Char) : List Char → List Char
  | [] => done.reverse
  | c :: r =>
    match skip with
    | k + 1 => replaceScan old new k done r
    | 0 =>
      if old.isPrefixOf (c :: r) then
        replaceScan old new (old.length - 1) (new.reverse ++ done) r
      else replaceScan old new 0 (c :: done) r

/-- Exchange each occurrence of a non-empty `old` for `new`, taking occurrences from left to right
without overlap; an empty `old` leaves the text alone. -/
def replaceAll (old new s : List Char) : List Char :=
  if old.isEmpty then s else replaceScan old new 0 [] s

/-- The pieces of a text between the characters `sep`; there is one more piece than separators. -/
def splitOn (sep : Char) : List Char → List (List Char)
  | [] => [[]]
  | c :: r =>
    if c = sep then [] :: splitOn sep r
    else
      match splitOn sep r with
      | [] => [[c]]
      | piece :: rest => (c :: piece) :: rest

/-- The pieces joined with `sep` between them. -/
def joinWith (sep : Char) : List (List Char) → List Char
  | [] => []
  | [piece] => piece
  | piece :: rest => piece ++ sep :: joinWith sep rest

/-- `occursIn` on strings. -/
def mentions (s p : String) : Bool := occursIn p.toList s.toList

/-- `replaceAll` on strings. -/
def substitute (s old new : String) : String :=
  String.ofList (replaceAll old.toList new.toList s.toList)

theorem splitOn_ne_nil (sep : Char) (s : List Char) : splitOn sep s ≠ [] := by
  cases s with
  | nil => simp [splitOn]
  | cons c r =>
    rw [splitOn]
    split
    · simp
    · split <;> simp

/-- Joining the pieces of a split gives the text back. -/
theorem joinWith_splitOn (sep : Char) (s : List Char) : joinWith sep (splitOn sep s) = s := by
  induction s with
  | nil => rfl
  | cons c r ih =>
    rw [splitOn]
    split
    · next h =>
      subst h
      cases hs : splitOn c r with
      | nil => exact absurd hs (splitOn_ne_nil c r)
      | cons piece rest => rw [hs] at ih; simp [joinWith, ih]
    · split
      · next hs => exact absurd hs (splitOn_ne_nil sep r)
      · next piece rest hs =>
        rw [hs] at ih
        cases rest with
        | nil => simp_all [joinWith]
        | cons q qs => simp_all [joinWith]

end RepoAudit.Text
