import RepoAudit.Checkout
import RepoAudit.Language
import RepoAudit.Review.Basic
import RepoAudit.Runner

/-!
# The stages of a scan

* `Stages` — what a scan does outside the store: fetching, looking for languages, scanning,
  reviewing and cleaning up, over any state `σ` of what lies outside.
* `Stages.standard` — these stages on a machine.
-/

namespace RepoAudit

/-- Why the languages of a repository are not known: the system refuses, or a defect. -/
inductive DetectionStop where
  | system (e : SystemError)
  | crashed (message : String)
  deriving Repr, DecidableEq

/-- The work of a scan that lies outside the store. Without a review nobody is asked. -/
structure Stages (σ : Type) where
  fetch : String → Setting σ → Except CheckoutStop String × Setting σ
  detect : String → Setting σ → Except DetectionStop (List Language) × Setting σ
  scan : String → List Language → Setting σ → List ToolResult × Setting σ
  review : Option (String → List Finding → Setting σ →
    Except String (List Finding × ReviewStats) × Setting σ)
  cleanUp : String → σ → σ

/-- How a state holds a machine. -/
structure MachineIn (σ : Type) where
  get : σ → Machine
  set : Machine → σ → σ

/-- What the standard stages are made of. `tails` are the ends of names for new directories. -/
structure Workshop (σ : Type) where
  machine : MachineIn σ
  checkout : Checkout.Config
  tails : List String
  runner : Runner
  environment : Environment σ
  reviewer : Option (Reviewer σ) := none

namespace Workshop

variable {σ : Type}

/-- Fetches a repository. -/
def fetch (w : Workshop σ) (address : String) (st : Setting σ) :
    Except CheckoutStop String × Setting σ :=
  let (r, m) := Checkout.fetch w.checkout w.tails st.signal.firingTime address
    (w.machine.get st.outside)
  (r.map Checkout.path, { st with outside := w.machine.set m st.outside })

/-- The languages of a repository, most files first. -/
def detect (w : Workshop σ) (path : String) (st : Setting σ) :
    Except DetectionStop (List Language) × Setting σ :=
  let m := w.machine.get st.outside
  match Language.detect Language.extensions m.files m.directory m.nesting path with
  | .ok counts => (.ok (counts.map Language.Count.language), st)
  | .error .missing => (.error (.system (.ofText ("repository path not found: " ++ path))), st)
  | .error (.stopped .tooDeep) => (.error (.crashed WalkStop.tooDeepText), st)
  | .error (.stopped (.onPath (.refused r) _)) => (.error (.crashed r.message), st)
  | .error (.stopped (.onPath e directory)) => (.error (.system (.ofPathError e directory)), st)

/-- Runs the scanners that apply. -/
def scan (w : Workshop σ) (path : String) (languages : List Language) (st : Setting σ) :
    List ToolResult × Setting σ :=
  w.runner.runScanners w.environment path (languages.map .known) none st

/-- Reviews findings. -/
def review (w : Workshop σ) (r : Reviewer σ) (path : String) (findings : List Finding)
    (st : Setting σ) : Except String (List Finding × ReviewStats) × Setting σ :=
  let m := w.machine.get st.outside
  let (out, st) := r.review m.files m.directory path findings st
  (out.mapError Review.ReadDefect.message, st)

/-- Removes the directory of a repository; a refusal changes nothing. -/
def cleanUp (w : Workshop σ) (path : String) (s : σ) : σ :=
  let m := w.machine.get s
  match Checkout.discard w.checkout.root m.files m.directory path with
  | .ok files => w.machine.set { m with files := files } s
  | .error _ => s

/-- The reviewer, if there is one and it has a model. -/
def activeReviewer? (w : Workshop σ) : Option (Reviewer σ) := w.reviewer.filter Reviewer.isEnabled

/-- The stages made of these parts. -/
def stages (w : Workshop σ) : Stages σ where
  fetch := w.fetch
  detect := w.detect
  scan := w.scan
  review := w.activeReviewer?.map w.review
  cleanUp := w.cleanUp

end Workshop

end RepoAudit
