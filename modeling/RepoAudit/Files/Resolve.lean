import RepoAudit.Files.Refusal
import RepoAudit.Files.Tree

/-!
# Following paths through a file tree

Two ways of following a path, both through symbolic links.

* `FileTree.locate` — where opening a path leads, or why it leads nowhere.
* `FileTree.resolve` — the place that a path stands for even when nothing is there: links are followed
  as far as they exist, missing parts are kept, and a chain of links that returns to itself is left as it
  is written. Only a path with a name that the system does not take stands for no place.
* `Spot` — a location as it is written meanwhile; what is too long to be looked at is taken for missing.
* `FileTree.read` — the content of the file at the end of a path.
-/

namespace RepoAudit

/-- Why a path leads nowhere. -/
inductive PathError where
  | missing
  | notDirectory
  | isDirectory
  | tooManyLinks
  | nameTooLong
  | alreadyThere
  | refused (r : Refusal)
  deriving Repr, DecidableEq

/-- The system's text for a failure. -/
def PathError.reason : PathError → String
  | .missing => "No such file or directory"
  | .notDirectory => "Not a directory"
  | .isDirectory => "Is a directory"
  | .tooManyLinks => "Too many levels of symbolic links"
  | .nameTooLong => "File name too long"
  | .alreadyThere => "File exists"
  | .refused r => r.message

/-- Whether a path is not even looked for. -/
def PathError.isRefused : PathError → Bool
  | .refused _ => true
  | _ => false

namespace FileTree

/-- How many links one path may pass through. -/
def maxLinks : Nat := 40

/-- The longest path, in bytes. -/
def maxPathLength : Nat := 4095

/-- A path that is not too long for the system. -/
def Fits (path : String) : Prop := (Text.nameBytes path).length ≤ maxPathLength

instance (path : String) : Decidable (Fits path) := inferInstanceAs (Decidable (_ ≤ _))

/-- The longest name, in bytes. -/
def maxNameLength : Nat := 255

/-- Follows `todo` from the directory `loc`. A link at the very end is followed only when
`followLast` says so. -/
def locateFrom (t : FileTree) (followLast : Bool) (links : Nat) (loc : Location) :
    List String → Except PathError Location
  | [] => .ok loc
  | name :: todo =>
    match t.entryAt? loc with
    | some .directory =>
      if name = "" ∨ name = "." then locateFrom t followLast links loc todo
      else if name = ".." then locateFrom t followLast links loc.dropLast todo
      else if maxNameLength < (Text.nameBytes name).length then .error .nameTooLong
      else
        match t.entryAt? (loc ++ [name]) with
        | none => .error .missing
        | some (.link target) =>
          if todo.isEmpty && !followLast then .ok (loc ++ [name])
          else
            match links with
            | 0 => .error .tooManyLinks
            | links + 1 =>
              locateFrom t followLast links (if Path.isAbsolute target then [] else loc)
                (Path.parts target ++ todo)
        | some _ => locateFrom t followLast links (loc ++ [name]) todo
    | _ => .error .notDirectory
termination_by todo => (links, todo.length)

/-- Where a path leads from the directory `cwd`. -/
def locate (t : FileTree) (cwd : Location) (followLast : Bool) (path : String) :
    Except PathError Location :=
  if ¬ Path.IsPassable path then .error (.refused (.of path))
  else if path = "" then .error .missing
  else if maxPathLength < (Text.nameBytes path).length then .error .nameTooLong
  else
    t.locateFrom followLast maxLinks (if Path.isAbsolute path then [] else cwd) (Path.parts path)

/-- Whether a path leads to a directory. -/
def leadsToDirectory (t : FileTree) (cwd : Location) (path : String) : Bool :=
  match t.locate cwd true path with
  | .ok loc => t.entryAt? loc == some .directory
  | .error _ => false

/-- Whether a location is a directory once links are followed. -/
def isDirectoryAt (t : FileTree) (loc : Location) : Bool :=
  match t.locateFrom true maxLinks [] loc with
  | .ok l => t.entryAt? l == some .directory
  | .error _ => false

/-- The content of the file that a path leads to. -/
def read (t : FileTree) (cwd : Location) (path : String) : Except PathError Content := do
  let loc ← t.locate cwd true path
  match t.entryAt? loc with
  | some (.file c) => return c
  | some .directory => throw .isDirectory
  | _ => throw .missing

/-- The file that a path names taken away. A link is taken away itself; a directory stays. -/
def unlink (t : FileTree) (cwd : Location) (path : String) : Except PathError FileTree := do
  let loc ← t.locate cwd false path
  match t.entryAt? loc with
  | some .directory => throw .isDirectory
  | some _ => return t.removeBelow loc
  | none => throw .missing

end FileTree

/-! ### Resolving -/

/-- A location as it is written while a path is resolved: from the root, or from the working directory
after a number of steps up. -/
structure Spot where
  ups : Option Nat
  loc : Location
  deriving Repr, DecidableEq

namespace Spot

/-- The working directory. -/
def here (cwd : Location) : Spot := ⟨some 0, cwd⟩

/-- Where a path starts that is followed from a spot. -/
def start (s : Spot) (path : String) : Spot := if Path.isAbsolute path then ⟨none, []⟩ else s

/-- One name further. -/
def enter (s : Spot) (name : String) : Spot := ⟨s.ups, s.loc ++ [name]⟩

/-- One step up. It is written when there is no name to take back. -/
def leave (cwd : Location) (s : Spot) : Spot :=
  ⟨s.ups.map fun n => if s.loc.length ≤ cwd.length - n then n + 1 else n, s.loc.dropLast⟩

/-- The path of a spot as it is written. -/
def toPath (cwd : Location) (s : Spot) : String :=
  match s.ups with
  | none => Location.toPath s.loc
  | some n => Path.ofParts (List.replicate n ".." ++ s.loc.drop (cwd.length - n))

end Spot

namespace FileTree

/-- What stands at a spot, if its path is not too long. -/
def look (t : FileTree) (cwd : Location) (s : Spot) : Option Entry :=
  if Fits (s.toPath cwd) then t.entryAt? s.loc else none

/-- Parts that are still to be followed, and the link that stands for the place they lead to. -/
structure Pending where
  parts : List String
  link : Option Spot

/-- How many parts are still to be followed, counting each list of them once more. -/
def Pending.count : List Pending → Nat
  | [] => 0
  | f :: todo => f.parts.length + 1 + Pending.count todo

/-- What is known of a link: being followed, or the place it stands for. -/
abbrev SeenLinks := List (Spot × Option Spot)

/-- What is known of one link, if it has been met. -/
def SeenLinks.get? (s : Spot) : SeenLinks → Option (Option Spot)
  | [] => none
  | (l, p) :: rest => if l = s then some p else SeenLinks.get? s rest

/-- A place continued by everything that is still to be followed, as it is written. -/
def writtenRest (path : String) (todo : List Pending) : Location :=
  Location.ofPath (Path.normalize
    (todo.foldl (fun p f => Path.join p (Path.ofParts f.parts)) path))

/-- Follows pending parts from a spot. `links` bounds how many more links can be met for the first
time. -/
def resolveFrom (t : FileTree) (cwd : Location) (links : Nat) (seen : SeenLinks) (s : Spot) :
    List Pending → Except Refusal Location
  | [] => .ok s.loc
  | ⟨[], link⟩ :: todo =>
    match link with
    | none => resolveFrom t cwd links seen s todo
    | some l => resolveFrom t cwd links ((l, some s) :: seen) s todo
  | ⟨name :: parts, link⟩ :: todo =>
    if name = "" ∨ name = "." then resolveFrom t cwd links seen s (⟨parts, link⟩ :: todo)
    else if name = ".." then resolveFrom t cwd links seen (s.leave cwd) (⟨parts, link⟩ :: todo)
    else if Path.IsPassable name then
      let next := s.enter name
      match t.look cwd next with
      | some (.link target) =>
        match seen.get? next with
        | some (some place) => resolveFrom t cwd links seen place (⟨parts, link⟩ :: todo)
        | some none => .ok (writtenRest (Location.toPath next.loc) (⟨parts, link⟩ :: todo))
        | none =>
          match links with
          | 0 => .ok (writtenRest (Location.toPath next.loc) (⟨parts, link⟩ :: todo))
          | links + 1 =>
            resolveFrom t cwd links ((next, none) :: seen) (s.start target)
              (⟨Path.parts target, some next⟩ :: ⟨parts, link⟩ :: todo)
      | _ => resolveFrom t cwd links seen next (⟨parts, link⟩ :: todo)
    else .error (.of ((s.enter name).toPath cwd))
termination_by todo => (links, Pending.count todo)
decreasing_by all_goals simp [Pending.count]; omega

/-- How many ways there are at most to write a location so that its path is not too long: from the root,
or after some steps up. -/
def maxSpellings : Nat := maxPathLength + 3

/-- The place that a path stands for, from the directory `cwd`, or why it stands for none. -/
def resolve (t : FileTree) (cwd : Location) (path : String) : Except Refusal Location :=
  t.resolveFrom cwd (t.entries.length * maxSpellings + 1) [] ((Spot.here cwd).start path)
    [⟨Path.parts path, none⟩]

end FileTree

end RepoAudit
