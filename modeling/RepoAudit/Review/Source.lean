import RepoAudit.Files.Resolve

/-!
# Reading flagged files

A path in a report may lead anywhere, so a file is read only when the place it stands for, with all
links followed, lies below the repository.

* `Review.ReadDefect` — what cannot even be tried.
* `Review.placeWithin` — the place of a path, if it lies below the repository.
* `Review.textWithin` — the text of a file, cut at a number of bytes.
-/

namespace RepoAudit.Review

/-- A request that the system refuses outright. -/
inductive ReadDefect where
  | refused (r : Refusal)
  | negativeLength
  | lengthOverflow
  | tooLong
  | outOfMemory
  deriving Repr, DecidableEq

/-- The defect in words. Of memory that cannot be had the system has nothing to say. -/
def ReadDefect.message : ReadDefect → String
  | .refused r => r.message
  | .negativeLength => "read length must be non-negative or -1"
  | .lengthOverflow => "cannot fit 'int' into an index-sized integer"
  | .tooLong => "byte string is too large"
  | .outOfMemory => ""

/-- What follows the text of a file that was cut. -/
def cutMark : String := "\n... (truncated)"

/-- The place that a path of a report stands for, when it lies strictly below the repository. -/
def placeWithin (t : FileTree) (cwd : Location) (repo path : String) :
    Except ReadDefect (Option Location) :=
  if path = "" then .ok none
  else do
    let root ← (t.resolve cwd repo).mapError .refused
    let loc ← (t.resolve cwd (Path.fromDirectory repo path)).mapError .refused
    return if Location.isBelow root loc then some loc else none

/-- The largest length that the system counts to. -/
def maxLength : Int := 9223372036854775807

/-- The bytes that every byte string takes beside its own. -/
def byteStringOverhead : Int := 33

/-- The bytes that a request for `limit + 1` bytes gives. What is asked for is set aside first, and no
more than `memory` can be. One below zero asks for everything, for which there is always memory. -/
def bytesUpTo (memory : Nat) (limit : Int) (c : Content) : Except ReadDefect (List UInt8) :=
  if limit + 1 < -1 then .error .negativeLength
  else if maxLength < limit + 1 then .error .lengthOverflow
  else if maxLength - byteStringOverhead < limit + 1 then .error .tooLong
  else if memory < limit + 1 then .error .outOfMemory
  else if limit + 1 = -1 then .ok c.toBytes
  else .ok (c.take (limit + 1).toNat)

/-- Bytes cut at a limit; a negative limit cuts so many off the end. -/
def cutAt (limit : Int) (bs : List UInt8) : List UInt8 :=
  if 0 ≤ limit then bs.take limit.toNat else bs.take (bs.length - limit.natAbs)

/-- The text of bytes that were read with a limit, with the mark when there are more. -/
def textUpTo (limit : Int) (bs : List UInt8) : String :=
  Text.Utf8.textOf (cutAt limit bs) ++ (if limit < bs.length then cutMark else "")

/-- The text of a flagged file, at most `limit` bytes of it; none when it is not below the
repository or cannot be read. -/
def textWithin (t : FileTree) (cwd : Location) (memory : Nat) (limit : Int) (repo path : String) :
    Except ReadDefect (Option String) := do
  match ← placeWithin t cwd repo path with
  | none => return none
  | some loc =>
    match t.read [] (Location.toPath loc) with
    | .error (.refused r) => throw (.refused r)
    | .error _ => return none
    | .ok c => return some (textUpTo limit (← bytesUpTo memory limit c))

/-- The texts of those of the files that can be read, by path. -/
def textsWithin (t : FileTree) (cwd : Location) (memory : Nat) (limit : Int) (repo : String) :
    List String → Except ReadDefect (List (String × String))
  | [] => .ok []
  | path :: paths => do
    let text ← textWithin t cwd memory limit repo path
    let rest ← textsWithin t cwd memory limit repo paths
    return match text with
      | some text => (path, text) :: rest
      | none => rest

end RepoAudit.Review
