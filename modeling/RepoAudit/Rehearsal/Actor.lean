import RepoAudit.Machine

/-!
# Acted programs

Programs that print what is written down for them, leave files behind, and wait.

* `Actor` — what such a program does.
* `Actor.program` — the program for a machine.
* `furnish` — files put below a directory.
* `tails` — ends of names for new directories.
-/

namespace RepoAudit.Rehearsal

/-- What an acted program does: it prints at once, copies files into the directory that its last
argument names, waits and ends. -/
structure Actor where
  stdout : String := ""
  stderr : String := ""
  exitCode : Int := 0
  pause : Decimal := .ofInt 0
  files : List (String × Entry) := []

/-- A tree with files put below a directory. -/
def furnish (t : FileTree) (place : Location) (files : List (String × Entry)) : FileTree :=
  files.foldl (fun t (path, e) => t.plant (place ++ Path.nonEmptyParts path) e) t

/-- The program of an actor. -/
def Actor.program (a : Actor) : Program := fun l place t =>
  let behaviour : Execution.Behaviour := {
    stdout := if a.stdout = "" then [] else [(.ofInt 0, Text.Utf8.bytesOf a.stdout)]
    stderr := Text.Utf8.bytesOf a.stderr
    ends := a.pause
    code := a.exitCode % 256 }
  if a.files.isEmpty then (behaviour, t)
  else
    match t.locate place true (l.args.getLast?.getD "") with
    | .ok target => (behaviour, furnish t target a.files)
    | .error _ => (behaviour, t)

/-- Ends of names for new directories, in the order in which they are tried. -/
def tails : List String :=
  (List.range 1000).map fun n => "w" ++ toString (1000000 + n)

end RepoAudit.Rehearsal
