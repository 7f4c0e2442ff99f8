import RepoAudit.Rehearsal.Actor
import RepoAudit.Rehearsal.Script
import RepoAudit.Service.Basic

/-!
# Rehearsed services

A scan service as it would run, on a machine of its own: git puts known files into a checkout, the
scanners follow a script, and the model always does the same.

* `Scene` — everything outside a rehearsed service, with a record of what it was asked for.
* `Hook` — what happens at the start of a stage, or in its place.
* `Scenario` — what is rehearsed; `Scenario.service` is the service for it.
* `Scenario.heed` — the service after what a script has asked of the service itself.
-/

namespace RepoAudit.Rehearsal

/-- A machine, the record of scanners and model, and the directories of all checkouts so far. -/
structure Scene where
  machine : Machine
  log : Record := {}
  checkouts : List String := []

namespace Scene

/-- The machine of a scene. -/
def machineIn : MachineIn Scene where
  get sc := sc.machine
  set m sc := { sc with machine := m }

/-- A scripted environment in a scene. -/
def environment (e : Environment Record) : Environment Scene where
  run inv signal sc :=
    let (r, log) := e.run inv signal sc.log
    (r, { sc with log := log })
  readBack path sc :=
    let (text, log) := e.readBack path sc.log
    (text, { sc with log := log })
  discard path sc :=
    let (done, log) := e.discard path sc.log
    (done, { sc with log := log })

/-- A recorded model in a scene. -/
def model (m : Model Record) : Model Scene := fun system user sc =>
  let (r, log) := m system user sc.log
  (r, { sc with log := log })

/-- A recorded reviewer in a scene. -/
def reviewer (r : Reviewer Record) : Reviewer Scene := ⟨r.model.map model, r.limits, r.memory⟩

end Scene

/-- What happens at the start of a stage: the cancel signal may fire, and an outcome may take the
place of the stage. -/
structure Hook (α : Type) where
  fires : Bool := false
  outcome : Option α := none

/-- What is rehearsed. The outcome of the hook of fetching is a failure or the path of a directory
that the files are put into. -/
structure Scenario where
  files : List (String × Entry) := []
  script : Script := {}
  runner : Runner
  limiter : Option Limiter := none
  reviewer : Option (Reviewer Record) := none
  checkout : Checkout.Config
  retentionDays : Int := Job.defaultDays
  fetchHook : Hook (Except CheckoutStop String) := {}
  detectHook : Hook DetectionStop := {}

namespace Scenario

/-- Files put into a directory of a machine. -/
def furnishMachine (m : Machine) (path : String) (files : List (String × Entry)) : Machine :=
  let place := Location.ofPath path
  { m with files := furnish (m.files.makeDirectories place) place files }

/-- Does the work of a stage after its hook, unless the hook has an outcome. -/
def hooked {α β : Type} (h : Hook α) (replace : α → Setting Scene → β × Setting Scene)
    (work : Setting Scene → β × Setting Scene) (st : Setting Scene) : β × Setting Scene :=
  let st := if h.fires then { st with signal := st.signal.fire } else st
  match h.outcome with
  | some x => replace x st
  | none => work st

/-- The program that git is. -/
def git (s : Scenario) : Program := Actor.program { files := s.files }

/-- The machine with git on it. -/
def equip (s : Scenario) (m : Machine) : Machine := { m with programs := [("git", s.git)] }

/-- The parts that the stages are made of. -/
def workshop (s : Scenario) : Workshop Scene where
  machine := Scene.machineIn
  checkout := s.checkout
  tails := tails
  runner := s.runner
  environment := Scene.environment s.script.environment
  reviewer := s.reviewer.map Scene.reviewer

/-- The fetching that a hook puts in the place of the stage. -/
def replaceFetch (s : Scenario) (r : Except CheckoutStop String) (st : Setting Scene) :
    Except CheckoutStop String × Setting Scene :=
  match r with
  | .error e => (.error e, st)
  | .ok path =>
    (.ok path, { st with outside :=
      { st.outside with machine := furnishMachine st.outside.machine path s.files } })

/-- A fetch whose directory goes on record. -/
def recorded (r : Except CheckoutStop String × Setting Scene) :
    Except CheckoutStop String × Setting Scene :=
  match r with
  | (.ok path, st) =>
    (.ok path, { st with outside :=
      { st.outside with checkouts := st.outside.checkouts ++ [path] } })
  | (.error e, st) => (.error e, st)

/-- The stages of a rehearsed scan. -/
def stages (s : Scenario) : Stages Scene :=
  let standard := s.workshop.stages
  { standard with
    fetch := fun address st =>
      recorded (hooked s.fetchHook s.replaceFetch (standard.fetch address) st)
    detect := fun path => hooked s.detectHook (fun e st => (.error e, st)) (standard.detect path) }

/-- The rehearsed service on a machine, or why its work root cannot be made. -/
def service (s : Scenario) (m : Machine) : Except SystemError (Service Scene) :=
  (s.checkout.prepare (s.equip m)).map fun m =>
    { s.workshop.service s.limiter s.retentionDays { machine := m } with stages := s.stages }

/-- A service that a script has asked to shut down is closed. -/
def heed (svc : Service Scene) : Service Scene :=
  { svc with closed := svc.closed || svc.world.outside.log.shutDown }

end Scenario

end RepoAudit.Rehearsal
