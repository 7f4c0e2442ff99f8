import RepoAudit.Environment

/-!
# Procedures

Work done in an environment, request by request.

* `Procedure` — what is left of some work: its outcome, or a request and what follows its answer.
* `Procedure.bind`, `Procedure.map` — work after work.
* `Procedure.perform` — the whole of it at once, in an environment.
* `Procedure.ofFile` — a file read back and then removed.
-/

namespace RepoAudit

/-- What is left of some work that comes to an `α`. -/
inductive Procedure (α : Type) where
  | done (x : α)
  | ask (q : Request) (next : q.Answer → Procedure α)

namespace Procedure

variable {α β σ : Type}

/-- One procedure and then another, which depends on the outcome of the first. -/
def bind (f : α → Procedure β) : Procedure α → Procedure β
  | done x => f x
  | ask q next => ask q fun x => (next x).bind f

/-- A procedure with its outcome seen differently. -/
def map (f : α → β) (p : Procedure α) : Procedure β := p.bind fun x => done (f x)

/-- Does all the work in an environment. -/
def perform (env : Environment σ) : Procedure α → Signal → σ → (α × Signal) × σ
  | done x, signal, outside => ((x, signal), outside)
  | ask q next, signal, outside =>
    let ((x, signal), outside) := env.answer q signal outside
    (next x).perform env signal outside

/-- The text of a file, which is removed once it has been read. -/
def ofFile (path : String) : Procedure (Except String String) :=
  ask (.readBack path) fun
    | .error m => done (.error m)
    | .ok text => ask (.discard path) fun removed => done (removed.map fun _ => text)

end Procedure

end RepoAudit
