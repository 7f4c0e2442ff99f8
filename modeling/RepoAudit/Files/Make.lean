import RepoAudit.Files.Resolve

/-!
# Making and removing directories

* `FileTree.makeDirectory` — one new directory in a directory that is there.
* `FileTree.makePath` — a directory with all that are missing on the way to it.
* `FileTree.removeTree` — a directory removed with everything in it, or the reason why not. Links in
  it are removed and not followed.
-/

namespace RepoAudit.FileTree

/-- Where the last name of a path would stand: the directory that the rest leads to, and the name. -/
def newPlace (t : FileTree) (cwd : Location) (path : String) : Except PathError Location :=
  if ¬ Path.IsPassable path then .error (.refused (.of path))
  else if path = "" then .error .missing
  else if maxPathLength < (Text.nameBytes path).length then .error .nameTooLong
  else do
    let names := Path.parts path
    let name := Path.baseName path
    let parent ← t.locate cwd true
      (if names.length = 1 then "." else Path.ofParts (names.dropLast ++ [""]))
    if t.entryAt? parent ≠ some .directory then throw .notDirectory
    if maxNameLength < (Text.nameBytes name).length then throw .nameTooLong
    return if name = "" ∨ name = "." then parent
      else if name = ".." then parent.dropLast
      else parent ++ [name]

/-- The tree with one directory more, and where it is. -/
def makeDirectory (t : FileTree) (cwd : Location) (path : String) :
    Except PathError (FileTree × Location) := do
  let loc ← t.newPlace cwd path
  if (t.entryAt? loc).isSome then throw .alreadyThere
  return (t.put loc .directory, loc)

/-- The paths of the directories on the way to a path, the path itself at the end. -/
def stages (path : String) : List String :=
  let names := Path.parts path
  (List.range names.length).map fun n => Path.ofParts (names.take (n + 1))

/-- The tree with the directory of a path and those on the way to it. What is on the way already is
passed; the answer to a failure names the path that could not be made. -/
def makePath (t : FileTree) (cwd : Location) (path : String) :
    Except (PathError × String) FileTree :=
  if path = "" then .error (.missing, path)
  else
    (stages path).foldlM (fun t p =>
      if p = "" ∨ t.leadsToDirectory cwd p then .ok t
      else
        match t.makeDirectory cwd p with
        | .ok (t, _) => .ok t
        | .error .alreadyThere => if p = path then .error (.alreadyThere, p) else .ok t
        | .error e => .error (e, p)) t

/-- Why a tree is not removed: for a reason of the system, or because the path to it ends in a
link. -/
inductive RemovalError where
  | system (e : PathError)
  | link
  deriving Repr, DecidableEq

/-- The reason in words. Of a link the system has nothing to say. -/
def RemovalError.reason : RemovalError → String
  | .system e => e.reason
  | .link => "None"

/-- The tree without the directory that the path of a location leads to, and without everything in
it. Links on the way are followed; a link at the end is opened, and then refused. -/
def removeTree (t : FileTree) (loc : Location) : Except RemovalError FileTree := do
  let place ← (t.locate [] false (Location.toPath loc)).mapError .system
  match t.entryAt? place with
  | some .directory => return t.removeBelow place
  | some (.file _) => throw (.system .notDirectory)
  | some (.link _) =>
    let _ ← (t.locate [] true (Location.toPath loc)).mapError .system
    throw .link
  | none => throw (.system .missing)

end RepoAudit.FileTree
