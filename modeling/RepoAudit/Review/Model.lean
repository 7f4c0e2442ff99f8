import RepoAudit.Execution
import RepoAudit.Setting

/-!
# Asking a model

* `Model` — what answers a pair of prompts, over any state `σ` of what lies outside.
* `Reaction` — what a model does with a request: it may take its time, fail, or see the cancel
  signal fire meanwhile.
* `Reaction.await` — waiting for an answer with a time limit, looking at the signal every quarter of
  a second.
* `Model.ask` — a request with all of that, inside a slot of the limiter.
-/

namespace RepoAudit

/-- How a model fails by itself. -/
inductive ModelFailure where
  | timedOut
  | failed (message : String)
  deriving Repr, DecidableEq

/-- What a model does with a request. -/
structure Reaction where
  fires : Bool := false
  delay : Decimal := .ofInt 0
  outcome : Except ModelFailure String

/-- A model: a system prompt and a user prompt are answered. -/
abbrev Model (σ : Type) := String → String → σ → Reaction × σ

/-- Why there is no answer. -/
inductive Unanswered where
  | cancelled
  | timedOut
  | failed (message : String)
  deriving Repr, DecidableEq

namespace Reaction

/-- How long it takes to notice that the signal has fired. -/
def noticeTime : Decimal := ⟨false, 25, -2⟩

/-- The outcome of waiting for an answer. -/
def await (limit : Decimal) (fired : Bool) (r : Reaction) : Except Unanswered String :=
  if r.delay.lt limit && (!fired || r.delay.lt noticeTime) then
    match r.outcome with
    | .ok answer => .ok answer
    | .error .timedOut => .error .timedOut
    | .error (.failed m) => .error (.failed m)
  else if fired && noticeTime.lt limit then .error .cancelled
  else .error .timedOut

end Reaction

namespace Model

variable {σ : Type}

/-- Sends a request and waits for the answer. Without any time, or once the signal has fired, the
request is not even sent. -/
def send (m : Model σ) (limit : Duration) (system user : String) (st : Setting σ) :
    Except Unanswered String × Setting σ :=
  if limit.seconds.le (.ofInt 0) then (.error .timedOut, st)
  else if st.signal.isFired then (.error .cancelled, st)
  else
    let (reaction, outside) := m system user st.outside
    let signal := if reaction.fires then st.signal.fire else st.signal
    (reaction.await limit.seconds signal.isFired, { st with signal := signal, outside := outside })

/-- Sends a request while holding a slot of the limiter. -/
def ask (m : Model σ) (limit : Duration) (system user : String) (st : Setting σ) :
    Except Unanswered String × Setting σ :=
  st.inSlot (.error .cancelled) (m.send limit system user)

end Model

end RepoAudit
