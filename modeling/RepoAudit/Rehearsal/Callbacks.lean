import RepoAudit.Cancel

/-!
# Scripted callbacks

Callbacks of a cancel signal whose doings are written down, to see in which order they are called.

* `Callback` — a callback and what it does besides leaving its name.
* `Stage.register`, `Stage.registerAgain`, `Stage.remove`, `Stage.fire` — the operations of a token,
  each followed by the callbacks it calls.
-/

namespace RepoAudit.Rehearsal

/-- What a callback does after it has left its name. -/
inductive Doing where
  | nothing
  | fails
  | fires
  | registers
  | removes (handle : String)
  deriving Repr, DecidableEq

/-- A callback; its number tells it from others of the same name. -/
structure Callback where
  number : Nat
  name : String
  doing : Doing
  deriving Repr, DecidableEq

/-- A token, the number of the next callback, all callbacks by the handles they were registered
under, those that handles take back, and the names left so far. -/
structure Stage where
  token : Token Callback := {}
  next : Nat := 0
  known : List (String × Callback) := []
  handles : List (String × Callback) := []
  log : List String := []

namespace Stage

/-- Takes back the registration that a handle stands for; an unknown handle does nothing. -/
def remove (st : Stage) (handle : String) : Stage :=
  match st.handles.lookup handle with
  | some k => { st with token := st.token.remove k }
  | none => st

/-- Registers a callback that only leaves its name. -/
def registerPlain (st : Stage) (name : String) : Stage :=
  let k : Callback := ⟨st.next, name, .nothing⟩
  let (token, now) := st.token.register k
  { st with token := token, next := st.next + 1, log := if now then st.log ++ [name] else st.log }

/-- Calls a callback of a token that has fired; the answer says whether it ends well. -/
def call (st : Stage) (k : Callback) : Stage × Bool :=
  let st := { st with log := st.log ++ [k.name] }
  match k.doing with
  | .nothing => (st, true)
  | .fails => (st, false)
  | .fires => ({ st with token := st.token.fire.1 }, true)
  | .registers => (st.registerPlain (k.name ++ "+"), true)
  | .removes handle => (st.remove handle, true)

/-- Registers a callback under a handle. When it is called at once and fails, there is no handle. -/
def registerUnder (st : Stage) (handle : String) (k : Callback) : Stage × Bool :=
  let (token, now) := st.token.register k
  let st := { st with token := token, known := (handle, k) :: st.known }
  let (st, fine) := if now then st.call k else (st, true)
  (if fine then { st with handles := (handle, k) :: st.handles } else st, fine)

/-- Registers a new callback under its name; the answer says whether that ends well. -/
def register (st : Stage) (name : String) (doing : Doing) : Stage × Bool :=
  { st with next := st.next + 1 }.registerUnder name ⟨st.next, name, doing⟩

/-- Registers the callback of an earlier handle once more under another one. -/
def registerAgain (st : Stage) (handle earlier : String) : Stage × Bool :=
  match st.known.lookup earlier with
  | some k => st.registerUnder handle k
  | none => st.register handle .nothing

/-- Fires the token and calls the callbacks it hands out; one that fails is passed over. -/
def fire (st : Stage) : Stage :=
  let (token, callbacks) := st.token.fire
  callbacks.foldl (fun st k => (st.call k).1) { st with token := token }

end Stage

end RepoAudit.Rehearsal
