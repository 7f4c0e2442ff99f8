import RepoAudit.Limiter.Room
import RepoAudit.Review.Model
import RepoAudit.Runner

/-!
# Work shared by a crew

Tasks of several teams that are worked on at once, some of them while holding a slot of one limiter.
A team takes its tasks up in their order, and no more of them at once than it has threads.

* `Work` — what is done step by step; `Work.scanning`, `Work.sending`, `Work.either` — the steps of a
  scanner, a request to a model, and either of two kinds of work.
* `Task`, `Opening` — what there is to do, and how it begins.
* `Post`, `Member` — how far a task has got.
* `Team`, `Plan` — who takes tasks up, and how they are worked on.
* `Crew` — the room with the limiter, the members, and what lies outside.
* `Crew.takeUp`, `Crew.look`, `Crew.getThrough`, `Crew.giveUp`, `Crew.work`, `Crew.complete`,
  `Crew.giveBack` — the atomic steps of a member.
* `Runner.task`, `Runner.team` — running the scanners of some names; `Prompts.task` — asking a model.
-/

namespace RepoAudit

/-! ### Work -/

/-- Work that is done step by step: when it has come to an outcome, and what a step does. A step sees
the signal and what lies outside, and it may see the signal fire. -/
structure Work (σ τ α : Type) where
  outcome : τ → Option α
  step : τ → Signal → σ → (τ × Signal) × σ

/-- What is sent to a model. -/
structure Prompts where
  system : String
  user : String
  deriving Repr, DecidableEq

namespace Procedure

variable {α σ : Type}

/-- What a procedure has come to. -/
def outcome : Procedure α → Option α
  | done x => some x
  | ask _ _ => none

/-- A procedure after its next request has been answered. -/
def advance (env : Environment σ) : Procedure α → Signal → σ → (Procedure α × Signal) × σ
  | done x, signal, outside => ((done x, signal), outside)
  | ask q next, signal, outside =>
    let ((x, signal), outside) := env.answer q signal outside
    ((next x, signal), outside)

end Procedure

namespace Work

variable {σ τ τ' α β : Type}

/-- Scanners at work in an environment, request by request. -/
def scanning (env : Environment σ) : Work σ (Procedure α) α := ⟨Procedure.outcome, Procedure.advance env⟩

/-- Prompts that are sent to a model, and then the answer. -/
def sending (m : Model σ) (limit : Duration) :
    Work σ (Prompts ⊕ Except Unanswered String) (Except Unanswered String) where
  outcome := Sum.getRight?
  step
    | .inl prompts, signal, outside =>
      let (x, st) := m.send limit prompts.system prompts.user { signal := signal, outside := outside }
      ((.inr x, st.signal), st.outside)
    | .inr x, signal, outside => ((.inr x, signal), outside)

/-- Work of one kind or another. -/
def either (w : Work σ τ α) (w' : Work σ τ' β) : Work σ (τ ⊕ τ') (α ⊕ β) where
  outcome
    | .inl t => (w.outcome t).map .inl
    | .inr t => (w'.outcome t).map .inr
  step
    | .inl t, signal, outside =>
      let ((t, signal), outside) := w.step t signal outside
      ((.inl t, signal), outside)
    | .inr t, signal, outside =>
      let ((t, signal), outside) := w'.step t signal outside
      ((.inr t, signal), outside)

end Work

/-! ### Tasks -/

/-- How a task begins. It is settled without any work, or there is work to do: freely, or while
holding a slot, with what it comes to when it is kept from taking one. -/
inductive Opening (τ α : Type) where
  | settled (x : α)
  | free (t : τ)
  | held (refused : α) (t : τ)

/-- A task: its team, what it comes to when the team passes it over, and how it begins. -/
structure Task (τ α : Type) where
  team : Nat
  skipped : α
  opening : Opening τ α

/-- A task with its work and its outcome seen differently. -/
def Task.map {τ τ' α α' : Type} (f : τ → τ') (g : α → α') (task : Task τ α) : Task τ' α' where
  team := task.team
  skipped := g task.skipped
  opening :=
    match task.opening with
    | .settled x => .settled (g x)
    | .free t => .free (f t)
    | .held refused t => .held (g refused) (f t)

/-- How far a task has got. It has not been taken up; somebody asks for a slot; somebody has got one,
or has been refused one, and still has to take back the alarm; it is worked on, holding a slot or not;
the work has come to something and the slot is still to be given back; it is done, with or without a
slot. -/
inductive Post (τ α : Type) where
  | waiting
  | asking (refused : α) (t : τ)
  | admitted (t : τ)
  | turnedAway (refused : α)
  | working (held : Bool) (t : τ)
  | ended (x : α)
  | done (held : Bool) (x : α)

namespace Post

variable {τ α : Type}

/-- Whether a task has not been taken up. -/
def isWaiting : Post τ α → Bool
  | waiting => true
  | _ => false

/-- What a task has come to for good. -/
def result? : Post τ α → Option α
  | done _ x => some x
  | _ => none

/-- Whether somebody is busy with a task. -/
def isBusy (p : Post τ α) : Bool := !p.isWaiting && p.result?.isNone

/-- Whether work is in progress. -/
def isWorking : Post τ α → Bool
  | working _ _ => true
  | _ => false

/-- Whether a slot is held for a task. -/
def holds : Post τ α → Bool
  | admitted _ | working true _ | ended _ => true
  | _ => false

/-- Whether a task was worked on holding a slot that has been given back. -/
def gaveBack : Post τ α → Bool
  | done true _ => true
  | _ => false

/-- A task that asks for a slot after what a look at the limiter has come to. -/
def decided (refused : α) (t : τ) : Option Leaving → Post τ α
  | none => asking refused t
  | some (.ok ()) => admitted t
  | some (.error _) => turnedAway refused

end Post

/-- A task with how far it has got. -/
structure Member (τ α : Type) where
  task : Task τ α
  post : Post τ α := .waiting

/-- A member at another post. -/
def Member.turn {τ α : Type} (m : Member τ α) (post : Post τ α) : Member τ α := { m with post := post }

/-! ### Teams -/

/-- Who takes up tasks: the name of the signal, the number of threads, and whether a task is passed
over once the signal has fired. -/
structure Team where
  signal : Option String := none
  size : Nat
  watchful : Bool := false
  deriving Repr, DecidableEq

/-- The teams by their numbers, and how tasks are worked on. -/
structure Plan (σ τ α : Type) where
  teams : Nat → Team
  work : Work σ τ α

/-- The members in the room with the limiter. A member calls under its position. -/
structure Crew (σ τ α : Type) where
  room : Room
  members : List (Member τ α)
  outside : σ

namespace Crew

variable {σ τ α : Type}

/-- A crew before any task is taken up. -/
def start (l : Limiter) (tasks : List (Task τ α)) (outside : σ) : Crew σ τ α :=
  { room := { limiter := l }, members := tasks.map fun task => { task := task }, outside := outside }

/-- The signal as a team sees it. -/
def signal (plan : Plan σ τ α) (c : Crew σ τ α) (team : Nat) : Signal :=
  match (plan.teams team).signal with
  | none => .absent
  | some s => if (c.room.tokens s).fired then .fired else .quiet

/-- How many threads of a team are busy. -/
def busy (c : Crew σ τ α) (team : Nat) : Nat :=
  c.members.countP fun m => m.task.team = team && m.post.isBusy

/-- What the tasks of a team have come to, in their order. -/
def results (c : Crew σ τ α) (team : Nat) : List α :=
  (c.members.filter fun m => m.task.team = team).filterMap fun m => m.post.result?

/-- A member at another post. -/
def put (c : Crew σ τ α) (i : Nat) (m : Member τ α) (post : Post τ α) : Crew σ τ α :=
  { c with members := c.members.set i (m.turn post) }

/-- The crew in another room. -/
def within (c : Crew σ τ α) (room : Room) : Crew σ τ α := { c with room := room }

/-! ### The steps of a member -/

/-- A task is taken up. A watchful team passes it over once its signal has fired. -/
def takeUp (plan : Plan σ τ α) (c : Crew σ τ α) (i : Nat) (m : Member τ α) : Crew σ τ α :=
  if (plan.teams m.task.team).watchful && (c.signal plan m.task.team).isFired then
    c.put i m (.done false m.task.skipped)
  else
    match m.task.opening with
    | .settled x => c.put i m (.done false x)
    | .free t => c.put i m (.working false t)
    | .held refused t =>
      (c.put i m (.asking refused t)).within
        (c.room.arrive { number := i, signal := (plan.teams m.task.team).signal })

/-- The post of a member that has looked for a slot. -/
def look (c : Crew σ τ α) (i : Nat) (m : Member τ α) (refused : α) (t : τ) (w : Waiter) :
    Crew σ τ α :=
  c.put i m (.decided refused t (c.room.decision w false))

/-- A member that has got a slot goes to work. -/
def getThrough (c : Crew σ τ α) (i : Nat) (m : Member τ α) (t : τ) : Crew σ τ α :=
  (c.put i m (.working true t)).within (c.room.leave i)

/-- A member that has been refused a slot is done. -/
def giveUp (c : Crew σ τ α) (i : Nat) (m : Member τ α) (refused : α) : Crew σ τ α :=
  (c.put i m (.done false refused)).within (c.room.leave i)

/-- A signal fires if work has seen it fire. -/
def notice (c : Crew σ τ α) (name : Option String) (signal : Signal) : Crew σ τ α :=
  match name with
  | none => c
  | some s => if signal.isFired then c.within (c.room.fire s) else c

/-- One step of work. -/
def work (plan : Plan σ τ α) (c : Crew σ τ α) (i : Nat) (m : Member τ α) (held : Bool) (t : τ) :
    Crew σ τ α :=
  let next := plan.work.step t (c.signal plan m.task.team) c.outside
  { c.put i m (.working held next.1.1) with outside := next.2 }.notice
    (plan.teams m.task.team).signal next.1.2

/-- Work has come to an outcome. -/
def complete (c : Crew σ τ α) (i : Nat) (m : Member τ α) (held : Bool) (x : α) : Crew σ τ α :=
  c.put i m (if held then .ended x else .done false x)

/-- A slot is given back, which wakes one sleeping caller, if there is any. -/
def giveBack (c : Crew σ τ α) (i : Nat) (m : Member τ α) (x : α) (number : Option Nat) :
    Crew σ τ α :=
  (c.put i m (.done true x)).within (c.room.releaseWaking number)

end Crew

/-! ### Running scanners -/

namespace Runner

/-- What a scanner comes to that was kept from running. -/
def passedOver (name : String) : ToolResult := { tool := name, error := some "cancelled" }

/-- Running the scanner of a name, which needs a slot when there is a limiter. -/
def task (r : Runner) (repo : String) (languages : List LanguageName) (limited : Bool) (team : Nat)
    (name : String) : Task (Procedure ToolResult) ToolResult where
  team := team
  skipped := passedOver name
  opening :=
    match r.registry.get? name with
    | none => .settled { tool := name, error := some ("unknown tool: " ++ name) }
    | some s =>
      if limited then .held (passedOver name) (r.procedure s repo languages)
      else .free (r.procedure s repo languages)

/-- The team that runs the scanners of some names: as many threads as may run at once, or one that
looks at the signal before each scanner. -/
def team (r : Runner) (names : List String) (signal : Option String) : Team where
  signal := signal
  size := if r.isSequential names then 1 else r.parallel.toNat
  watchful := r.isSequential names

end Runner

/-! ### Asking a model -/

/-- Asking a model, which needs a slot. -/
def Prompts.task (prompts : Prompts) (team : Nat) :
    Task (Prompts ⊕ Except Unanswered String) (Except Unanswered String) where
  team := team
  skipped := .error .cancelled
  opening := .held (.error .cancelled) (.inl prompts)

end RepoAudit
