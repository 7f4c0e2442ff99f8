import RepoAudit.Files.Resolve
import RepoAudit.Text.Order

/-!
# Walking through a file tree

A walk comes to directories by their paths, each one before those in it, and never through a link. It
goes as deep as calls may nest.

* `FileTree.walk` — the directories that a walk comes to, each with its names that are of no
  directory, and what ends the walk early. A test on names says which directories are entered; a
  directory that the system does not list is passed over, or ends the walk.
* `FileTree.measure` — the sizes of everything that a walk finds, a link counting its own text.
* `FileTree.listing` — the relative paths of everything below a directory.
-/

namespace RepoAudit

/-- A directory that a walk has come to, and its names that are of no directory. -/
structure Visit where
  path : String
  names : List String
  deriving Repr, DecidableEq

/-- The paths of what has been found in a directory. -/
def Visit.paths (v : Visit) : List String := v.names.map (Path.join v.path)

/-- Why something that is done by walking does not come to its end: the system refuses a path, or the
directories are nested deeper than calls may be. -/
inductive WalkStop where
  | onPath (e : PathError) (path : String)
  | tooDeep
  deriving Repr, DecidableEq

/-- What is said of directories that are nested too deep. -/
def WalkStop.tooDeepText : String := "maximum recursion depth exceeded"

/-- The directories that a walk comes to, and what ends it early. -/
structure Walk where
  visits : List Visit
  stop : Option WalkStop
  deriving Repr, DecidableEq

namespace Walk

/-- A walk and, unless it ends early, another one. -/
def followedBy (w w' : Walk) : Walk :=
  match w.stop with
  | none => ⟨w.visits ++ w'.visits, w'.stop⟩
  | some _ => w

/-- Walks one after the other, up to the first that ends early. -/
def inTurn (ws : List Walk) : Walk := ws.foldr followedBy ⟨[], none⟩

/-- The paths of everything that a walk has found. -/
def paths (w : Walk) : List String := w.visits.flatMap Visit.paths

end Walk

namespace FileTree

/-- The directory that is listed under a path. -/
def listed (t : FileTree) (cwd : Location) (path : String) : Except PathError Location := do
  let loc ← t.locate cwd true path
  if t.entryAt? loc ≠ some .directory then throw .notDirectory
  return loc

/-- Whether a name in a directory, listed under a path, is of a directory or of a link to one. -/
def looksLikeDirectory (t : FileTree) (cwd : Location) (path : String) (loc : Location)
    (name : String) : Bool :=
  match t.entryAt? (loc ++ [name]) with
  | some .directory => true
  | some (.link _) => t.leadsToDirectory cwd (Path.join path name)
  | _ => false

/-- The names in a directory, listed under a path, that are of directories or of links to some. -/
def directoriesIn (t : FileTree) (cwd : Location) (path : String) (loc : Location) : List String :=
  (t.namesIn loc).filter (t.looksLikeDirectory cwd path loc)

/-- The other names in a directory, listed under a path. -/
def othersIn (t : FileTree) (cwd : Location) (path : String) (loc : Location) : List String :=
  (t.namesIn loc).filter fun name => !t.looksLikeDirectory cwd path loc name

/-- The walk from a path: the directory there, and then what `descend` makes of those in it that `keep`
lets in. Nothing descends where calls may not nest any deeper. -/
def walkWith (t : FileTree) (cwd : Location) (keep : String → Bool) (strict : Bool)
    (descend : Option (String → Walk)) (path : String) : Walk :=
  match t.listed cwd path with
  | .error e => ⟨[], if strict || e.isRefused then some (.onPath e path) else none⟩
  | .ok loc =>
    let kept := (t.directoriesIn cwd path loc).filter keep
    let here : Walk := ⟨[⟨path, t.othersIn cwd path loc⟩], none⟩
    match descend with
    | none => if kept.isEmpty then here else { here with stop := some .tooDeep }
    | some descend =>
      let below := kept.filter fun name => t.entryAt? (loc ++ [name]) = some .directory
      here.followedBy (.inTurn (below.map fun name => descend (Path.join path name)))

/-- The walk from a path, through as many levels of directories as calls may nest. With `strict`, the
first directory that cannot be listed ends it. -/
def walk (t : FileTree) (cwd : Location) (keep : String → Bool) (strict : Bool) :
    Nat → String → Walk
  | 0 => t.walkWith cwd keep strict none
  | levels + 1 => t.walkWith cwd keep strict (some (t.walk cwd keep strict levels))

/-- The size that an entry itself has on disk. -/
def ownSize (t : FileTree) (loc : Location) : Nat :=
  match t.entryAt? loc with
  | some (.file c) => c.size
  | some (.link target) => (Text.nameBytes target).length
  | _ => 0

/-- The sizes of what some paths name, added up; a link at the end is not followed. -/
def sizeOf (t : FileTree) (cwd : Location) : List String → Except WalkStop Nat
  | [] => .ok 0
  | path :: paths =>
    match t.locate cwd false path with
    | .error e => .error (.onPath e path)
    | .ok loc => (t.sizeOf cwd paths).map (t.ownSize loc + ·)

/-- The size of everything that is found below the directory of a path. Directories that cannot be
listed are passed over. -/
def measure (t : FileTree) (cwd : Location) (levels : Nat) (path : String) : Except WalkStop Nat :=
  let w := t.walk cwd (fun _ => true) false levels path
  match t.sizeOf cwd w.paths, w.stop with
  | .error stop, _ => .error stop
  | .ok _, some stop => .error stop
  | .ok size, none => .ok size

/-- The paths below a directory, as seen from it, in order; directories and links to directories
end in a slash. -/
def listing (t : FileTree) (loc : Location) : List String :=
  Text.sort (t.entries.filterMap fun (l, e) =>
    if Location.isBelow loc l then
      let path := Path.ofParts (l.drop loc.length)
      match e with
      | .directory => some (path ++ "/")
      | .file _ => some path
      | .link _ => some (if t.isDirectoryAt l then path ++ "/" else path)
    else none)

end FileTree

end RepoAudit
