import RepoAudit.Execution
import RepoAudit.Proofs.Decimal

/-!
# Watching a program comes to an end

A program with a known behaviour ends by itself, runs past its deadline or is stopped; it is never
watched in vain.

* `Execution.exists_supervise` — watching ends when one of the turns shows an end;
* `Execution.Behaviour.exists_decisive` — **among the turns of a behaviour there is one that does**;
* `Execution.runBehaviour_ne_crashed` — an execution that can be started is no defect.
-/

namespace RepoAudit.Execution

variable {program : String} {limit : Duration} {deadline : Decimal} {turns : List Turn} {e : Ended}

/-- Watching ends when one of the turns shows an end. -/
theorem exists_supervise {t : Turn} (ht : t ∈ turns)
    (hend : deadline.le t.clock = true ∨ ∃ code out err, t.sight = .exited code out err) :
    ∃ e, supervise program limit deadline turns = some e := by
  induction turns with
  | nil => exact absurd ht List.not_mem_nil
  | cons first rest ih =>
    rw [supervise]
    by_cases hpassed : deadline.le first.clock = true
    · exact ⟨_, if_pos hpassed⟩
    rw [if_neg hpassed]
    by_cases hfired : first.fired = true
    · exact ⟨_, if_pos hfired⟩
    rw [if_neg hfired]
    cases hsight : first.sight with
    | exited code out err => exact ⟨_, rfl⟩
    | broke message => exact ⟨_, rfl⟩
    | running =>
      rcases List.mem_cons.mp ht with rfl | hrest
      · rcases hend with hend | ⟨code, out, err, hexited⟩
        · exact absurd hend hpassed
        · rw [hsight] at hexited
          cases hexited
      · exact ih hrest

/-- Watching a program is no defect when no turn of it is. -/
theorem supervise_ne_crashed (hturns : ∀ t ∈ turns, ∀ message, t.sight ≠ .broke message)
    (h : supervise program limit deadline turns = some e) (message : String) :
    e.outcome ≠ .error (.crashed message) := by
  induction turns with
  | nil => cases h
  | cons first rest ih =>
    rw [List.forall_mem_cons] at hturns
    rw [supervise] at h
    split at h
    · obtain rfl := Option.some.inj h
      simp
    split at h
    · obtain rfl := Option.some.inj h
      simp
    split at h
    · obtain rfl := Option.some.inj h
      simp
    · exact ih hturns.2 h
    · next m hbroke => exact absurd hbroke (hturns.1 m)

/-! ### The turns of a behaviour -/

namespace Behaviour

theorem value_quarter (k : Nat) : (quarter k).value = k / 4 := by
  rw [quarter, Decimal.value]
  show (((25 * k : Nat) : Int) : ℚ) * 10 ^ (-2 : Int) = _
  push_cast
  norm_num
  ring

theorem value_earlier (a b : Decimal) : (earlier a b).value = min a.value b.value := by
  rw [earlier]
  by_cases hle : a.le b = true
  · rw [if_pos hle, min_eq_left (Decimal.le_iff.mp hle)]
  · rw [if_neg hle, min_eq_right (not_le.mp (mt Decimal.le_iff.mpr hle)).le]

/-- The turns that are taken go past the end of the program, or past its deadline. -/
theorem value_earlier_lt_turnCount (b : Behaviour) (limit : Decimal) :
    (earlier b.ends limit).value < (b.turnCount limit : Nat) / 4 := by
  have hfloor := Decimal.value_lt_floor (earlier b.ends limit)
  have hcount : b.turnCount limit = ((earlier b.ends limit).floor + 1) * 4 + 1 := rfl
  rw [hcount]
  push_cast at hfloor ⊢
  linarith

/-- Among the turns of a behaviour there is one that shows its end, or one past its deadline. -/
theorem exists_decisive (b : Behaviour) (fires : Option Decimal) (limit : Decimal) :
    ∃ t ∈ b.turns fires limit, ((Decimal.ofInt 0).add limit).le t.clock = true ∨
      ∃ code out err, t.sight = .exited code out err := by
  refine ⟨_, List.mem_map.mpr ⟨b.turnCount limit, List.mem_range.mpr (Nat.lt_succ_self _), rfl⟩, ?_⟩
  have hlast := value_earlier_lt_turnCount b limit
  rw [value_earlier] at hlast
  have hclock : (earlier (quarter (b.turnCount limit)) limit).value =
      min ((b.turnCount limit : Nat) / 4 : ℚ) limit.value := by
    rw [value_earlier, value_quarter]
  have hnext : (earlier (quarter (b.turnCount limit + 1)) limit).value =
      min (((b.turnCount limit + 1 : Nat) : ℚ) / 4) limit.value := by
    rw [value_earlier, value_quarter]
  by_cases hends : b.ends.value < limit.value
  · -- the program ends before its deadline
    right
    have hexited : b.ends.lt (earlier (quarter (b.turnCount limit + 1)) limit) = true := by
      rw [Decimal.lt_iff, hnext, lt_min_iff]
      rw [min_eq_left hends.le] at hlast
      refine ⟨?_, hends⟩
      push_cast
      linarith
    exact ⟨b.code, b.stdout.flatMap Prod.snd, b.stderr, if_pos hexited⟩
  · left
    rw [min_eq_right (not_lt.mp hends)] at hlast
    rw [Decimal.le_iff, Decimal.value_add, Decimal.value_ofInt]
    show _ ≤ (earlier (quarter (b.turnCount limit)) limit).value
    rw [hclock, min_eq_right hlast.le]
    norm_num

theorem sight_ne_broke {b : Behaviour} {fires : Option Decimal} {limit : Decimal} {t : Turn}
    (ht : t ∈ b.turns fires limit) (message : String) : t.sight ≠ .broke message := by
  obtain ⟨k, -, rfl⟩ := List.mem_map.mp ht
  rw [turn]
  split <;> simp

end Behaviour

/-- An execution with a countable limit is no defect, unless its start is. -/
theorem runBehaviour_ne_crashed {fires : Option Decimal} {start : Except Failure Behaviour}
    (hlimit : limit.isCountable = true) (hstart : ∀ message, start ≠ .error (.crashed message))
    (message : String) : runBehaviour program limit fires start ≠ .error (.crashed message) := by
  unfold runBehaviour execute
  dsimp only
  by_cases hfired : fires.any (·.le (.ofInt 0)) = true
  · rw [if_pos hfired]
    simp
  rw [if_neg hfired, if_neg (by simp [hlimit])]
  cases start with
  | error failure =>
    have hfailure : failure ≠ .crashed message := fun h => hstart message (h ▸ rfl)
    simpa only [Except.map, ne_eq, Except.error.injEq] using hfailure
  | ok b =>
    simp only [Except.map]
    obtain ⟨t, ht, hend⟩ := b.exists_decisive fires limit.seconds
    have hwatched : ∃ e, supervise program limit ((Decimal.ofInt 0).add limit.seconds)
        (b.turns fires limit.seconds) = some e := exists_supervise ht hend
    obtain ⟨e, he⟩ := hwatched
    rw [he]
    exact supervise_ne_crashed (fun t ht => Behaviour.sight_ne_broke ht) he message

end RepoAudit.Execution
