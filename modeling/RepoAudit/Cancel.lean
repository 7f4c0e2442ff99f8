/-!
# Cancellation

A one-shot signal, and what is called when it fires.

* `Signal` — the signal as a stage of a scan sees it.
* `Token` — the signal with the callbacks that wait for it. `Token.fire` hands out the callbacks to
  be called, each once and in the order of registration.
-/

namespace RepoAudit

/-- A cancel signal as a stage sees it: there may be none, and one may have fired. -/
inductive Signal where
  | absent
  | quiet
  | fired
  deriving Repr, DecidableEq, Inhabited

namespace Signal

/-- Whether the signal has fired. -/
def isFired (s : Signal) : Bool := s == .fired

/-- The signal after it is asked to fire; without a signal nothing happens. -/
def fire : Signal → Signal
  | .absent => .absent
  | _ => .fired

end Signal

/-- A signal with the callbacks that wait for it. Equal callbacks may be registered several times. -/
structure Token (κ : Type) where
  fired : Bool := false
  callbacks : List κ := []
  deriving Repr

namespace Token

variable {κ : Type}

/-- Registers a callback. After the firing nothing is kept, and the answer says that the callback is
to be called at once. -/
def register (t : Token κ) (k : κ) : Token κ × Bool :=
  if t.fired then (t, true) else ({ t with callbacks := t.callbacks ++ [k] }, false)

/-- Takes back the first registration of a callback. -/
def remove [DecidableEq κ] (t : Token κ) (k : κ) : Token κ :=
  { t with callbacks := t.callbacks.erase k }

/-- Fires the signal and hands out the callbacks to be called; firing again does nothing. -/
def fire (t : Token κ) : Token κ × List κ :=
  if t.fired then (t, []) else (⟨true, []⟩, t.callbacks)

@[simp] theorem fired_fire (t : Token κ) : t.fire.1.fired = true := by
  unfold fire; split <;> simp_all

@[simp] theorem fire_fire (t : Token κ) : t.fire.1.fire.2 = [] := by
  unfold fire; split <;> simp_all

@[simp] theorem fired_register (t : Token κ) (k : κ) : (t.register k).1.fired = t.fired := by
  unfold register
  split <;> rfl

theorem callbacks_register {t : Token κ} (h : t.fired = false) (k : κ) :
    (t.register k).1.callbacks = t.callbacks ++ [k] := by
  simp [register, h]

theorem fire_of_fired {t : Token κ} (h : t.fired = true) : t.fire = (t, []) := by
  simp [fire, h]

theorem fire_of_quiet {t : Token κ} (h : t.fired = false) : t.fire = (⟨true, []⟩, t.callbacks) := by
  simp [fire, h]

end Token

end RepoAudit
