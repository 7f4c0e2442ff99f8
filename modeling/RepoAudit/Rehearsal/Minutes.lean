import RepoAudit.Rehearsal.Scenario
import RepoAudit.Text.Order

/-!
# Minutes of a rehearsal

* `Invocation.toJson`, `callsInOrder` — the runs of scanners that were asked for.
* `Scenario.minutes` — what a rehearsed service has done.
-/

namespace RepoAudit

/-- A run of a scanner as an object. -/
def Invocation.toJson (c : Invocation) : Json.Value := .object [
  ("program", .string c.program), ("args", .array (c.args.map .string)),
  ("workdir", .string c.directory), ("timeout", c.limit.toJson)]

namespace Rehearsal

/-- Whether a run comes before another or beside it: by program, then by arguments. -/
def callPrecedes (x y : Invocation) : Bool :=
  if x.program = y.program then !(y.args < x.args) else Text.le x.program y.program

/-- Runs in an order that does not depend on chance: as they were asked for when they follow each
other, sorted when some may take place at once. -/
def callsInOrder (parallel : Int) (calls : List Invocation) : Json.Value :=
  .array ((if 1 < parallel then calls.mergeSort callPrecedes else calls).map Invocation.toJson)

/-- A path below a work root, with the name that was made up for a checkout left out. -/
def withoutName (stem path : String) : String :=
  match Path.parts path with
  | first :: rest =>
    if stem.toList.isPrefixOf first.toList then Path.ofParts ((stem ++ "*") :: rest) else path
  | [] => path

/-- What a rehearsed service has done: what it told the store, what it asked for, and what is left in
its work root. -/
def Scenario.minutes (s : Scenario) (svc : Service Scene) : Json.Fields :=
  let sc := svc.world.outside
  let texts (xs : List String) : Json.Value := .array (xs.map .string)
  let left := match sc.machine.files.locate sc.machine.directory true s.checkout.root with
    | .ok loc => sc.machine.files.listing loc
    | .error _ => []
  [("statuses", texts (svc.world.notices.map fun n => n.status.name)),
    ("calls", callsInOrder s.runner.parallel sc.log.calls),
    ("cancel_scan",
      if sc.log.cancelled = 0 then .null
      else .array (List.replicate sc.log.cancelled (.bool true))),
    ("removed", texts sc.log.removed), ("prompts", texts sc.log.prompts),
    ("left", texts (left.map (withoutName s.checkout.stem)))]

end Rehearsal

end RepoAudit
