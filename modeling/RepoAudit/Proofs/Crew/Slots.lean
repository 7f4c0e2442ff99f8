import RepoAudit.Proofs.Crew.Ending
import RepoAudit.Proofs.Limiter.Counting

/-!
# Slots that are given back

Whoever works on a heavy task holds a slot, and whoever has taken a slot gives it back, whatever the
work comes to. So no more scanners and requests to models are in progress than there are slots, in
whatever schedule, and none of the slots is lost.

* `Setting.limiter_inSlot` — work in a slot uses the limiter once, or not at all;
* `Task.IsHeavy` — running a scanner and asking a model are heavy;
* `Crew.working_le` — **no more heavy tasks are in progress than there are slots**;
* `Crew.exists_finished_of_heavy` — they can all be done, and then no slot is taken;
* `Crew.counters_balance` — what the counters of a limiter mean, and what follows for heavy tasks.
-/

namespace RepoAudit

open Relation

variable {σ τ τ' α β : Type}

/-! ### One after the other -/

/-- A limiter when slots have been taken and given back some more times. -/
def Limiter.afterUses (l : Limiter) (count : Nat) : Limiter :=
  { l with processed := l.processed + count }

theorem Limiter.afterUses_add (l : Limiter) (count count' : Nat) :
    (l.afterUses count).afterUses count' = l.afterUses (count' + count) := by
  rw [afterUses, afterUses, afterUses, Nat.add_assoc, Nat.add_comm count]

/-- Two limiters differ by one use at most. -/
def Setting.UsedOnce (before after : Setting σ) : Prop :=
  after.limiter = before.limiter ∨ after.limiter = before.limiter.map fun l => l.afterUses 1

/-- Work that leaves the limiter alone gives back the slot that it is done in. -/
theorem Setting.usedOnce_inSlot {refused : α} {work : Setting σ → α × Setting σ}
    (hwork : ∀ st, (work st).2.limiter = st.limiter) (st : Setting σ) :
    st.UsedOnce (st.inSlot refused work).2 := by
  cases hlimiter : st.limiter with
  | none =>
    refine .inl ?_
    simp only [inSlot, hlimiter]
    exact (hwork st).trans hlimiter
  | some l =>
    cases hfired : st.signal.isFired with
    | true =>
      refine .inl ?_
      simp [inSlot, hlimiter, hfired]
    | false =>
      refine .inr ?_
      simp only [inSlot, hlimiter, hfired, Bool.false_eq_true, if_false, hwork, Option.map_some,
        Limiter.release_take]
      rfl

theorem Runner.usedOnce_runScanner (r : Runner) (env : Environment σ) (name repo : String)
    (languages : List LanguageName) (st : Setting σ) :
    st.UsedOnce (r.runScanner env name repo languages st).2 := by
  cases hs : r.registry.get? name with
  | none =>
    rw [runScanner, hs]
    exact .inl rfl
  | some s =>
    simp only [runScanner, hs]
    exact Setting.usedOnce_inSlot (fun _ => rfl) st

theorem Model.limiter_send (m : Model σ) (limit : Duration) (system user : String) (st : Setting σ) :
    (m.send limit system user st).2.limiter = st.limiter := by
  rw [send]
  split
  · rfl
  · split <;> rfl

theorem Model.usedOnce_ask (m : Model σ) (limit : Duration) (system user : String) (st : Setting σ) :
    st.UsedOnce (m.ask limit system user st).2 :=
  Setting.usedOnce_inSlot (m.limiter_send limit system user) st

/-! ### Heavy work -/

/-- Whether work is to be done in a slot if it is to be done at all. -/
def Opening.NeedsSlot : Opening τ α → Prop
  | .free _ => False
  | _ => True

/-- What is left of the work of a scanner or of a request to a model. -/
abbrev Heavy := Procedure ToolResult ⊕ (Prompts ⊕ Except Unanswered String)

/-- What a scanner or a request to a model comes to. -/
abbrev HeavyOutcome := ToolResult ⊕ Except Unanswered String

/-- Scanners and requests to a model. -/
def Work.heavy (env : Environment σ) (m : Model σ) (limit : Duration) : Work σ Heavy HeavyOutcome :=
  .either (.scanning env) (.sending m limit)

/-- Whether a task is to run a scanner or to ask a model, in a slot. -/
inductive Task.IsHeavy : Task Heavy HeavyOutcome → Prop
  | scanner (r : Runner) (repo : String) (languages : List LanguageName) (team : Nat) (name : String) :
      IsHeavy ((r.task repo languages true team name).map .inl .inl)
  | request (prompts : Prompts) (team : Nat) : IsHeavy ((prompts.task team).map .inr .inr)

theorem Task.IsHeavy.needsSlot {task : Task Heavy HeavyOutcome} (h : task.IsHeavy) :
    task.opening.NeedsSlot := by
  cases h with
  | scanner r repo languages team name =>
    cases hs : r.registry.get? name <;> simp [Task.map, Runner.task, hs, Opening.NeedsSlot]
  | request prompts team => trivial

/-! ### At once -/

namespace Crew

variable {plan : Plan σ τ α} {l : Limiter} {tasks : List (Task τ α)} {c : Crew σ τ α} {outside : σ}

/-- Whoever works on a task that needs a slot holds one. -/
theorem Reachable.holds_of_working (h : Reachable plan l tasks outside c)
    (hneeds : ∀ task ∈ tasks, task.opening.NeedsSlot) {m : Member τ α} (hm : m ∈ c.members)
    (hworking : m.post.isWorking = true) : m.post.holds = true := by
  obtain ⟨i, hi⟩ := List.mem_iff_getElem?.mp hm
  have hkept : ∀ task : Task τ α, task.opening.NeedsSlot →
      Kept plan task (fun held _ => held = true) fun _ _ => True := by
    intro task hneeds
    constructor
    case free =>
      intro t hopening
      rw [hopening] at hneeds
      exact hneeds.elim
    case held => exact fun _ => ⟨trivial, rfl⟩
    case step => exact fun hheld _ _ _ => hheld
    case skipped => trivial
    case settled => exact fun _ => trivial
    case outcome => exact fun _ _ => trivial
  have hknown := h.member_at (P := fun _ m => m.task.opening.NeedsSlot ∧
    Known (fun held _ => held = true) (fun _ _ => True) m.post)
    (fun i task htask => ⟨hneeds task (List.mem_of_getElem? htask), trivial⟩)
    (fun d _ i m p _ _ hmoved hm => ⟨hm.1, hmoved.known (hkept _ hm.1) hm.2⟩) hi
  cases hpost : m.post with
  | working held t =>
    rw [hpost] at hknown
    obtain rfl : held = true := hknown.2
    rfl
  | _ =>
    rw [hpost] at hworking
    cases hworking

/-- **No more tasks are in progress that need a slot than there are slots.** -/
theorem Reachable.working_le (h : Reachable plan l tasks outside c)
    (hneeds : ∀ task ∈ tasks, task.opening.NeedsSlot) :
    l.active + c.members.countP (fun m => m.post.isWorking) ≤ max l.active l.capacity := by
  have hholds : c.members.countP (fun m => m.post.isWorking) ≤
      c.members.countP fun m => m.post.holds :=
    List.countP_mono_left fun m hm hworking => h.holds_of_working hneeds hm hworking
  have hactive := h.sound.active
  have hwithin := h.sound.within
  omega

/-- When all tasks are done, all the slots that were taken for them have been given back. -/
theorem Sound.active_of_finished (h : c.Sound plan l tasks) (hfinished : c.Finished) :
    c.room.limiter.active = l.active := by
  have hnone : (c.members.countP fun m => m.post.holds) = 0 := by
    refine List.countP_eq_zero.mpr fun m hm => ?_
    have hdone := hfinished m hm
    cases hpost : m.post <;> simp [hpost, Post.result?, Post.holds] at hdone ⊢
  rw [h.active, hnone, Nat.add_zero]

end Crew

namespace Work

theorem sending_wellFounded (m : Model σ) (limit : Duration) :
    WellFounded (sending m limit).Follows := by
  have hanswered : ∀ x, Acc (sending m limit).Follows (.inr x) := fun x =>
    ⟨_, fun _ h => nomatch h.1⟩
  refine ⟨fun t => ?_⟩
  cases t with
  | inr x => exact hanswered x
  | inl prompts =>
    refine ⟨_, ?_⟩
    rintro _ ⟨-, signal, outside, rfl⟩
    exact hanswered _

/-- Work of either of two kinds comes to an end if both kinds do. -/
theorem either_wellFounded {w : Work σ τ α} {w' : Work σ τ' β} (h : WellFounded w.Follows)
    (h' : WellFounded w'.Follows) : WellFounded (w.either w').Follows := by
  refine ⟨fun t => ?_⟩
  cases t with
  | inl t =>
    induction t using h.induction with
    | _ t ih =>
      refine ⟨_, ?_⟩
      rintro _ ⟨hgoing, signal, outside, rfl⟩
      exact ih _ ⟨Option.map_eq_none_iff.mp hgoing, signal, outside, rfl⟩
  | inr t =>
    induction t using h'.induction with
    | _ t ih =>
      refine ⟨_, ?_⟩
      rintro _ ⟨hgoing, signal, outside, rfl⟩
      exact ih _ ⟨Option.map_eq_none_iff.mp hgoing, signal, outside, rfl⟩

/-- Scanners and requests to a model come to an end. -/
theorem heavy_wellFounded (env : Environment σ) (m : Model σ) (limit : Duration) :
    WellFounded (heavy env m limit).Follows :=
  either_wellFounded (Procedure.follows_wellFounded env) (sending_wellFounded m limit)

end Work

namespace Crew

variable {teams : Nat → Team} {env : Environment σ} {m : Model σ} {limit : Duration} {l : Limiter}
  {tasks : List (Task Heavy HeavyOutcome)} {outside : σ} {c : Crew σ Heavy HeavyOutcome}

/-- Heavy tasks can always go on until all of them are done, and then no slot is lost. -/
theorem Reachable.exists_finished_of_heavy
    (h : Reachable ⟨teams, .heavy env m limit⟩ l tasks outside c) (hfree : l.hasFree = true)
    (hsize : ∀ task ∈ tasks, 0 < (teams task.team).size) :
    ∃ c', Reachable ⟨teams, .heavy env m limit⟩ l tasks outside c' ∧ c'.Finished ∧
      c'.room.limiter.active = l.active := by
  obtain ⟨c', hrun, hfinished⟩ :=
    h.sound.exists_finished (Work.heavy_wellFounded env m limit) hfree hsize
  have hreachable := h.moves hrun
  exact ⟨c', hreachable, hfinished, hreachable.sound.active_of_finished hfinished⟩

/-- **The counters of a limiter add up**, whatever its callers do. If they are heavy tasks alone, no
more of them are in progress than there are slots, and no slot is lost when all are done; nor is one
lost by a scanner or a request that is worked on by itself. -/
theorem counters_add_up (env : Environment σ) (m : Model σ) (limit : Duration) :
    (∀ r t, Room.Counted r t → r.Counts t) ∧
      (∀ teams capacity tasks outside c, (∀ task ∈ tasks, Task.IsHeavy task) →
        Reachable ⟨teams, .heavy env m limit⟩ (.ofCapacity capacity) tasks outside c →
          (∃ t, Room.Counted c.room t) ∧
            c.members.countP (fun m => m.post.isWorking) ≤ c.room.limiter.capacity ∧
            (c.Finished → c.room.limiter.active = 0)) ∧
      (∀ (r : Runner) name repo languages (st : Setting σ),
        st.UsedOnce (r.runScanner env name repo languages st).2) ∧
      ∀ system user (st : Setting σ), st.UsedOnce (m.ask limit system user st).2 := by
  refine ⟨fun _ _ h => h.counts, ?_, fun r => r.usedOnce_runScanner env, m.usedOnce_ask limit⟩
  intro teams capacity tasks outside c hheavy hreachable
  have hworking := hreachable.working_le fun task htask => (hheavy task htask).needsSlot
  have hnone : (Limiter.ofCapacity capacity).active = 0 := rfl
  rw [hnone, Nat.zero_add, Nat.zero_max] at hworking
  refine ⟨hreachable.room_reachable.exists_counted, ?_, hreachable.sound.active_of_finished⟩
  rwa [hreachable.sound.capacity]

end Crew

/-! A scanner and a model that share one slot. -/

/-- A scanner whose report is what it prints. -/
def printer : Scanner where
  name := "printer"
  command := "printer"
  description := ""
  args _ _ := .ok []
  read text := if text = "printed" then .ok [] else .error text

/-- A place where every program prints something. -/
def pressroom : Environment Unit where
  run inv signal u := ((.ok ⟨inv.program, 0, "printed", ""⟩, signal), u)
  readBack _ u := (.ok "", u)
  discard _ u := (.ok (), u)

/-- A model that is out of order. -/
def brokenModel : Model Unit := fun _ _ u => ({ outcome := .error (.failed "out of order") }, u)

/-- The scanner and the model, each for somebody else. -/
def pressTasks : List (Task Heavy HeavyOutcome) :=
  [(Runner.task { registry := ⟨[⟨printer, []⟩]⟩ } "/r" [] true 0 "printer").map .inl .inl,
    (Prompts.task ⟨"", ""⟩ 1).map .inr .inr]

/-- A slot that is given back once too often, and the two that share one. -/
theorem Crew.counters_add_up_pressroom :
    (∃ r, Room.Counted r ⟨0, 1, 1⟩ ∧ r.limiter.active = 0 ∧ r.limiter.processed = 1) ∧
      ∃ c, Crew.Reachable ⟨fun _ => { size := 1 }, .heavy pressroom brokenModel (.whole 1)⟩
          (.ofCapacity 1) pressTasks () c ∧
        c.members.countP (fun m => m.post.isWorking) ≤ 1 ∧ c.Finished ∧
          c.room.limiter.active = 0 := by
  obtain ⟨hcounts, hcrews, -, -⟩ := Crew.counters_add_up pressroom brokenModel (.whole 1)
  constructor
  · have hnobody : ∀ {r : Room}, r.waiters = [] → r.MayWake none := fun h w hw => by
      rw [h] at hw
      cases hw
    have hcounted := (((Room.Counted.empty 1).event .tryTake trivial).event (.release none)
      (hnobody rfl)).event (.release none) (hnobody rfl)
    have hcounts := hcounts _ _ hcounted
    exact ⟨_, hcounted, rfl, hcounts.processed⟩
  · have hheavy : ∀ task ∈ pressTasks, Task.IsHeavy task := by
      intro task htask
      simp only [pressTasks, List.mem_cons, List.not_mem_nil, or_false] at htask
      rcases htask with rfl | rfl
      · exact .scanner ..
      · exact .request ..
    obtain ⟨c, hreachable, hfinished, -⟩ := Crew.Reachable.exists_finished_of_heavy
      (.refl : Crew.Reachable ⟨fun _ => { size := 1 }, .heavy pressroom brokenModel (.whole 1)⟩
        (.ofCapacity 1) pressTasks () _) rfl fun _ _ => Nat.one_pos
    obtain ⟨-, hworking, hactive⟩ := hcrews _ 1 _ _ c hheavy hreachable
    rw [hreachable.sound.capacity] at hworking
    exact ⟨c, hreachable, hworking, hfinished, hactive hfinished⟩

end RepoAudit
