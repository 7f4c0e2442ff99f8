import RepoAudit.Service.Basic
import RepoAudit.Settings

/-!
# Services from settings

* `Settings.workshop` — the parts of the stages that the settings describe.
* `Settings.service` — the service on a machine, or why there cannot be one.
-/

namespace RepoAudit

/-- Why there is no service: its work root cannot be made, or nobody would work on scans. -/
inductive AssemblyError where
  | system (e : SystemError)
  | noWorkers
  deriving Repr, DecidableEq

/-- That nobody would work on scans, in words. -/
def AssemblyError.noWorkersText : String := "max_workers must be greater than 0"

namespace Settings

/-- The machine of a service that has nothing else. -/
def ownMachine : MachineIn Machine where
  get m := m
  set m _ := m

/-- The parts of the stages. `temporary` is the work root when none is given, `tails` are the ends of
names for new directories, and `connect` is the model behind a provider. -/
def workshop (c : Settings) (temporary : String) (tails : List String)
    (connect : Provider → Model Machine) : Workshop Machine where
  machine := ownMachine
  checkout := c.checkout temporary
  tails := tails
  runner := c.runner
  environment := c.place.environment
  reviewer := some { model := c.provider?.map connect, limits := c.reviewLimits }

/-- How many scans are worked on at once. -/
def workers (c : Settings) : Int := c.number .scanWorkers

/-- The service on a machine. -/
def service (c : Settings) (temporary : String) (tails : List String)
    (connect : Provider → Model Machine) (m : Machine) :
    Except AssemblyError (Service Machine) := do
  let w := c.workshop temporary tails connect
  let m ← (w.checkout.prepare m).mapError .system
  if c.workers ≤ 0 then throw .noWorkers
  return w.service (some c.limiter) (c.number .retentionDays) m

end Settings

end RepoAudit
