import RepoAudit.Text.Search

/-!
# Paths

Paths are texts with `/` between their parts, and everything here is lexical: no file is looked at.

* `normalize` — a path without empty parts, `.` and the `..` that can be taken back.
* `join` — a path continued by another; an absolute continuation replaces it.
* `baseName`, `directoryName`, `extension` — the last part of a path, what stands before it, and the
  extension of a name.
* `belowRoot` — a path as seen from a root directory that it lies under.
* `fromDirectory` — a path meant from a directory, as one normal path.
-/

namespace RepoAudit.Path

/-- Whether a path starts at the root. -/
def isAbsolute (p : String) : Bool := p.toList.head? == some '/'

/-- The parts between the slashes, empty ones included. -/
def parts (p : String) : List String := (Text.splitOn '/' p.toList).map String.ofList

/-- The parts with slashes between them. -/
def ofParts (ps : List String) : String :=
  String.ofList (Text.joinWith '/' (ps.map String.toList))

/-- The slashes that a normal path keeps at its start: exactly two stay two, any other number is
one. -/
def leading (p : String) : String :=
  match p.toList with
  | '/' :: '/' :: '/' :: _ => "/"
  | '/' :: '/' :: _ => "//"
  | '/' :: _ => "/"
  | _ => ""

/-- Adds one part to normal parts, kept last first: `..` takes the last part back, unless there is
none to take; at the root it is dropped. -/
def pushPart (absolute : Bool) (done : List String) (part : String) : List String :=
  if part = "" ∨ part = "." then done
  else if part = ".." then
    match done with
    | [] => if absolute then [] else [".."]
    | last :: rest => if last = ".." then ".." :: done else rest
  else part :: done

/-- The parts of the normal form of a path. -/
def normalParts (p : String) : List String :=
  ((parts p).foldl (pushPart (isAbsolute p)) []).reverse

/-- The normal form of a path; the path of no parts is `.`. -/
def normalize (p : String) : String :=
  let q := leading p ++ ofParts (normalParts p)
  if q = "" then "." else q

/-- A path continued by another. -/
def join (a b : String) : String :=
  if isAbsolute b then b
  else if a = "" ∨ a.toList.getLast? = some '/' then a ++ b
  else a ++ "/" ++ b

/-- The text after the last slash. -/
def baseName (p : String) : String := (parts p).getLast?.getD ""

/-- The text before the last slash, without the slashes at its end unless there is nothing else. -/
def directoryName (p : String) : String :=
  let head := p.toList.take (p.length - (baseName p).length)
  let bare := (head.reverse.dropWhile (· == '/')).reverse
  String.ofList (if bare.isEmpty then head else bare)

/-- The extension of a file name with its point: what follows the last point, unless only points
stand before it. -/
def extension (name : String) : String :=
  match Text.cutLast? ['.'] name.toList with
  | none => ""
  | some (before, after) =>
    if before.all (· == '.') then "" else String.ofList ('.' :: after)

/-- The parts that are not empty. -/
def nonEmptyParts (p : String) : List String := (parts p).filter (· ≠ "")

/-- An absolute path that lies under a root directory, as seen from there; any other path is left
as it is. -/
def belowRoot (root path : String) : String :=
  if isAbsolute path then
    let base := normalize root
    let target := normalize path
    if (base ++ "/").toList.isPrefixOf target.toList then
      let rest := (nonEmptyParts target).drop (nonEmptyParts base).length
      if rest.isEmpty then "." else ofParts rest
    else path
  else path

/-- The normal form of a path that is meant from a directory. -/
def fromDirectory (directory path : String) : String :=
  if isAbsolute path then normalize path else normalize (join directory path)

end RepoAudit.Path
