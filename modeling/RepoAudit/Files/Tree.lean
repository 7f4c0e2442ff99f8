import RepoAudit.Path
import RepoAudit.Text.Utf8

/-!
# File trees

What stands where in a file system: directories, files and symbolic links.

* `Location` — the names on the way from the root.
* `Content` — the bytes of a file; a stretch of zeros is kept as its length.
* `FileTree` — the entries by location. The root itself is always a directory.
* `FileTree.put`, `FileTree.removeBelow` — one more entry, and a whole tree less.
-/

namespace RepoAudit

/-- The names on the way from the root to an entry. -/
abbrev Location := List String

/-- The location that an absolute path in normal form names. -/
def Location.ofPath (p : String) : Location := Path.nonEmptyParts p

/-- The absolute path of a location. -/
def Location.toPath (loc : Location) : String := "/" ++ Path.ofParts loc

/-- Whether a location lies strictly below another, name by name. -/
def Location.isBelow (root loc : Location) : Bool := root.isPrefixOf loc && root != loc

/-- What a file holds. -/
inductive Content where
  | bytes (bs : List UInt8)
  | zeros (n : Nat)
  deriving Repr, DecidableEq

namespace Content

/-- The number of bytes. -/
def size : Content → Nat
  | .bytes bs => bs.length
  | .zeros n => n

/-- The first `n` bytes. -/
def take (n : Nat) : Content → List UInt8
  | .bytes bs => bs.take n
  | .zeros m => List.replicate (min n m) 0

/-- All bytes. -/
def toBytes (c : Content) : List UInt8 := c.take c.size

/-- The content of a file that holds a text. -/
def ofText (s : String) : Content := .bytes (Text.Utf8.bytesOf s)

theorem take_eq (n : Nat) (c : Content) : c.take n = c.toBytes.take n := by
  cases c with
  | bytes bs => simp [take, toBytes, size]
  | zeros m => simp [take, toBytes, size, List.take_replicate]

end Content

/-- An entry of a file tree. -/
inductive Entry where
  | directory
  | file (content : Content)
  | link (target : String)
  deriving Repr, DecidableEq

/-- The entries of a file system by location. -/
structure FileTree where
  entries : List (Location × Entry)
  deriving Repr

namespace FileTree

/-- The tree of nothing but the root. -/
def empty : FileTree := ⟨[]⟩

/-- The entry of a location in a list of entries. -/
def find? (loc : Location) : List (Location × Entry) → Option Entry
  | [] => none
  | (l, e) :: rest => if l = loc then some e else find? loc rest

/-- The entry at a location; the root is a directory. -/
def entryAt? (t : FileTree) (loc : Location) : Option Entry :=
  if loc = [] then some .directory else find? loc t.entries

/-- The tree with an entry put at a location. -/
def put (t : FileTree) (loc : Location) (e : Entry) : FileTree :=
  ⟨t.entries.filter (fun (l, _) => l ≠ loc) ++ [(loc, e)]⟩

/-- The tree with the directories on the way to a location, and that location itself, made. -/
def makeDirectories (t : FileTree) (loc : Location) : FileTree :=
  (List.range (loc.length + 1)).foldl (fun t n =>
    let l := loc.take n
    if (t.entryAt? l).isSome then t else t.put l .directory) t

/-- The tree with an entry put at a location and the directories on the way made. -/
def plant (t : FileTree) (loc : Location) (e : Entry) : FileTree :=
  (t.makeDirectories loc.dropLast).put loc e

/-- The tree without the entry at a location and without everything below it. -/
def removeBelow (t : FileTree) (loc : Location) : FileTree :=
  ⟨t.entries.filter fun (l, _) => !loc.isPrefixOf l⟩

/-- The names directly inside a location, in the order of the entries. -/
def namesIn (t : FileTree) (loc : Location) : List String :=
  t.entries.filterMap fun (l, _) =>
    if loc.isPrefixOf l && l.length == loc.length + 1 then l.getLast? else none

/-- A bound on the number of names in a location of the tree. -/
def depth (t : FileTree) : Nat := t.entries.foldl (fun n (l, _) => max n l.length) 0

end FileTree

end RepoAudit
