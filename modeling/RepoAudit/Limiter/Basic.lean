import RepoAudit.Decimal

/-!
# The limiter

A number of slots, shared by all heavy work: a piece of work runs while it holds one.

* `Limiter` — the slots with their counters.
* `Limiter.tryTake` — a slot if one is free.
* `Limiter.release` — a slot given back; giving back what nobody holds does nothing.
-/

namespace RepoAudit

/-- Slots and counters: how many slots are held, how many callers wait for one, and how many have
been given back. -/
structure Limiter where
  capacity : Nat
  active : Nat := 0
  waiting : Nat := 0
  processed : Nat := 0
  deriving Repr, DecidableEq, Inhabited

/-- Why a caller leaves without a slot. -/
inductive SlotError where
  | cancelled
  | timedOut (timeout : String)
  deriving Repr, DecidableEq

namespace SlotError

/-- The stable name of a reason. -/
def code : SlotError → String
  | .cancelled => "ACQUIRE_CANCELLED"
  | .timedOut _ => "ACQUIRE_TIMEOUT"

/-- The reason in words. -/
def message : SlotError → String
  | .cancelled => "cancelled while waiting for a free slot"
  | .timedOut t => "no free slot within " ++ t ++ "s"

end SlotError

namespace Limiter

/-- The capacity when none, or none that makes sense, is asked for. -/
def defaultCapacity : Nat := 5

/-- A limiter with no slot taken; a capacity that is not positive becomes the default. -/
def ofCapacity (n : Int) : Limiter := ⟨if n ≤ 0 then defaultCapacity else n.toNat, 0, 0, 0⟩

/-- Whether a slot is free. -/
def hasFree (l : Limiter) : Bool := l.active < l.capacity

/-- Whether all slots are taken. -/
def isFull (l : Limiter) : Bool := l.capacity ≤ l.active

/-- The number of free slots. -/
def available (l : Limiter) : Int := l.capacity - l.active

/-- A slot taken. -/
def take (l : Limiter) : Limiter := { l with active := l.active + 1 }

/-- A slot taken if one is free, and whether one was. -/
def tryTake (l : Limiter) : Bool × Limiter := if l.hasFree then (true, l.take) else (false, l)

/-- A slot given back and counted; without a slot taken nothing happens. -/
def release (l : Limiter) : Limiter :=
  if l.active = 0 then l else { l with active := l.active - 1, processed := l.processed + 1 }

theorem release_take (l : Limiter) :
    l.take.release = { l with processed := l.processed + 1 } := by
  simp [take, release]

end Limiter

end RepoAudit
