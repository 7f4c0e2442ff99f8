import RepoAudit.Cancel
import RepoAudit.Limiter.Basic

/-!
# What work takes place in

* `Setting` — the cancel signal, the limiter and everything that lies outside.
* `Setting.inSlot` — work done while holding a slot of the limiter.
-/

namespace RepoAudit

/-- What a run takes place in: the signal, the limiter if there is one, and what lies outside. -/
structure Setting (σ : Type) where
  signal : Signal := .absent
  limiter : Option Limiter := none
  outside : σ

namespace Setting

variable {σ α : Type}

/-- Does some work holding a slot, which is given back afterwards. A signal that has fired keeps the
work from taking one; then the answer is `refused`. Without a limiter the work is just done. -/
def inSlot (refused : α) (work : Setting σ → α × Setting σ) (st : Setting σ) : α × Setting σ :=
  match st.limiter with
  | none => work st
  | some l =>
    if st.signal.isFired then (refused, st)
    else
      let (x, st) := work { st with limiter := some l.take }
      (x, { st with limiter := st.limiter.map Limiter.release })

end Setting

end RepoAudit
