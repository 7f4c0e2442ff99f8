import RepoAudit.Execution
import RepoAudit.Limiter.Room

/-!
# Callers of a limiter

A rehearsal of a limiter with one caller that acts and others that wait beside it.

* `Callers` — the room with everybody in it.
* `Callers.acquire` — the acting caller asks for a slot and waits for the end of it.
* `Callers.spawn` — another caller comes in and is left waiting.
* `Callers.tally` — how many of the others have left in which way.
-/

namespace RepoAudit.Rehearsal

/-- The room, the number of the next caller, and the numbers of those that wait beside the acting
one. -/
structure Callers where
  room : Room
  next : Nat := 0
  spawned : List Nat := []

namespace Callers

/-- A caller that comes next, with the name of its signal and its time limit. -/
def newcomer (q : Callers) (signal : Option String) (limit : Option Duration) : Waiter :=
  { number := q.next, signal := signal, limit := limit.map Duration.text }

/-- Whether a time limit leaves no time at all. -/
def isSpent (limit : Option Duration) : Bool := limit.any fun t => t.seconds.le (.ofInt 0)

/-- The callers once things have settled. -/
def settled (q : Callers) : Callers := { q with room := q.room.settle }

/-- The acting caller asks for a slot and waits until it leaves, at the latest when its time is up;
`none` when it would wait for ever. -/
def acquire (q : Callers) (signal : Option String) (limit : Option Duration) :
    Option (Leaving × Callers) :=
  let w := q.newcomer signal limit
  if !q.room.isCancelled w && q.room.limiter.isFull && limit.isNone then none
  else
    let r := ((q.room.call w (isSpent limit)).expire w.number).review w.number true
    some ((r.left.lookup w.number).getD (.ok ()), settled { q with room := r, next := q.next + 1 })

/-- A caller comes in that waits beside the acting one and never gives its slot back. -/
def spawn (q : Callers) (signal : Option String) (limit : Option Duration) : Callers :=
  settled {
    room := q.room.call (q.newcomer signal limit) (isSpent limit)
    next := q.next + 1
    spawned := q.next :: q.spawned }

/-- A slot is taken without waiting, if one is free. -/
def tryAcquire (q : Callers) : Bool × Callers :=
  let (taken, room) := q.room.tryTake
  (taken, { q with room := room })

/-- The acting caller gives a slot back. -/
def release (q : Callers) : Callers := settled { q with room := q.room.release }

/-- A signal fires. -/
def fire (q : Callers) (signal : String) : Callers :=
  settled { q with room := q.room.fire signal }

/-- How many of the others have left in a way. -/
def tally (q : Callers) (p : Leaving → Bool) : Nat :=
  (q.room.left.filter fun (n, x) => q.spawned.contains n && p x).length

end Callers

end RepoAudit.Rehearsal
