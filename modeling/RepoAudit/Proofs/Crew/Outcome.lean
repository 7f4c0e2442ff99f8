import RepoAudit.Proofs.Crew.InOrder

/-!
# What running scanners comes to

Running the scanners of some names comes to one result for each of them, whatever goes wrong in them,
whoever else uses the limiter meanwhile and whenever the signal fires. Its use of the limiter is
balanced: when it is done it holds no slot, and what it has given back is what it had got.

* `Post.gotSlot` — whether a slot has been taken for a task; `Crew.Sound.gotSlot_run` — which stays so;
* `Crew.Sound.active_of_teamFinished`, `Crew.Sound.processed_of_teamFinished` — the counters of the
  limiter when a team is done;
* `Runner.Accounted` — what a team comes to, and what it has made of the limiter;
* `Crew.Ends` — all tasks can be done, and no schedule goes on for ever;
* `Runner.any_schedule_returns` — **so it is in every schedule**.
-/

namespace RepoAudit

open Relation

variable {σ τ α : Type}

/-- Whether a slot has been taken for a task. -/
def Post.gotSlot (p : Post τ α) : Bool := p.holds || p.gaveBack

/-- Whether a task has not been taken up, or waits for a slot. -/
def Post.NotStarted (p : Post τ α) : Prop := p.isWaiting = true ∨ p.leaves? = some false

namespace Crew

variable {plan : Plan σ τ α} {l : Limiter} {tasks : List (Task τ α)} {c c' : Crew σ τ α} {i : Nat}
  {m : Member τ α} {p : Post τ α} {outside : σ} {team : Nat}

theorem Moved.gotSlot (hmoved : Moved plan c m p outside) (h : m.post.gotSlot = true) :
    p.gotSlot = true := by
  cases hmoved with
  | getThrough hpost => rfl
  | @work held t hpost _ =>
    rw [hpost] at h
    cases held <;> exact h
  | @complete held t x hpost _ =>
    rw [hpost] at h
    cases held with
    | false => exact h
    | true => rfl
  | giveBack hpost => rfl
  | _ hpost =>
    rw [hpost] at h
    cases h

/-- A slot that has been taken for a task stays taken for it until it is given back. -/
theorem Sound.gotSlot_run (h : c.Sound plan l tasks) (hrun : ReflTransGen (Step plan) c c')
    (hm : c.members[i]? = some m) (hgot : m.post.gotSlot = true) :
    ∃ m', c'.members[i]? = some m' ∧ m'.task = m.task ∧ m'.post.gotSlot = true :=
  h.member_run (P := fun m => m.post.gotSlot = true) hrun
    (fun _ _ _ _ _ _ hmoved hgot => hmoved.gotSlot hgot) hm hgot

/-- The members of a team. -/
def ofTeam (c : Crew σ τ α) (team : Nat) : List (Member τ α) :=
  c.members.filter fun m => m.task.team = team

/-- The members of the other teams. -/
def others (c : Crew σ τ α) (team : Nat) : List (Member τ α) :=
  c.members.filter fun m => m.task.team ≠ team

theorem countP_members (c : Crew σ τ α) (team : Nat) (f : Member τ α → Bool) :
    c.members.countP f = (c.ofTeam team).countP f + (c.others team).countP f := by
  rw [ofTeam, others, List.countP_eq_countP_filter_add c.members f fun m => m.task.team = team]
  simp only [ne_eq, decide_not]

/-- A task that is done has got a slot exactly if it has given one back. -/
theorem TeamFinished.posts (h : c.TeamFinished team) (hm : m ∈ c.ofTeam team) :
    m.post.holds = false ∧ m.post.gotSlot = m.post.gaveBack := by
  obtain ⟨hmem, hteam⟩ := List.mem_filter.mp hm
  have hdone := h m hmem (of_decide_eq_true hteam)
  cases hpost : m.post with
  | done held x => exact ⟨rfl, rfl⟩
  | _ =>
    rw [hpost] at hdone
    cases hdone

/-- A team that is done holds no slot. -/
theorem Sound.active_of_teamFinished (h : c.Sound plan l tasks) (hfinished : c.TeamFinished team) :
    c.room.limiter.active = l.active + (c.others team).countP fun m => m.post.holds := by
  have hnone : ((c.ofTeam team).countP fun m => m.post.holds) = 0 :=
    List.countP_eq_zero.mpr fun m hm => by simp [(hfinished.posts hm).1]
  rw [h.active, c.countP_members team, hnone, Nat.zero_add]

/-- A team that is done has given back the slots that it had got. -/
theorem Sound.processed_of_teamFinished (h : c.Sound plan l tasks)
    (hfinished : c.TeamFinished team) :
    c.room.limiter.processed = l.processed + (c.ofTeam team).countP (fun m => m.post.gotSlot) +
      (c.others team).countP fun m => m.post.gaveBack := by
  have hgave : ((c.ofTeam team).countP fun m => m.post.gaveBack) =
      (c.ofTeam team).countP fun m => m.post.gotSlot :=
    List.countP_congr fun m hm => by rw [(hfinished.posts hm).2]
  rw [h.processed, c.countP_members team, hgave, Nat.add_assoc]

theorem Finished.countP_gotSlot (h : c.Finished) : (c.members.countP fun m => m.post.gotSlot) =
    c.members.countP fun m => m.post.gaveBack :=
  List.countP_congr fun m hm => by
    rw [((h.teamFinished m.task.team).posts (List.mem_filter.mpr ⟨hm, decide_eq_true rfl⟩)).2]

/-- All tasks can be done, and no schedule goes on for ever. -/
structure Ends (plan : Plan σ τ α) (c : Crew σ τ α) : Prop where
  finishes : ∃ c', ReflTransGen (Move plan) c c' ∧ c'.Finished
  stops : ∀ f : Nat → Crew σ τ α, f 0 = c → ¬ ∀ k, Step plan (f k) (f (k + 1))

theorem Reachable.ends (h : Reachable plan l tasks outside c) (hwork : WellFounded plan.work.Follows)
    (hfree : l.hasFree = true) (hsize : ∀ task ∈ tasks, 0 < (plan.teams task.team).size) :
    c.Ends plan where
  finishes := h.sound.exists_finished hwork hfree hsize
  stops f hstart := Reachable.not_endless (f := f) hwork (hstart.symm ▸ h)

end Crew

namespace Runner

variable {r : Runner} {env : Environment σ} {repo : String} {languages : List LanguageName}
  {names : List String} {limited : Bool} {signal : Option String}
  {plan : Plan σ (Procedure ToolResult) ToolResult}
  {tasks : List (Task (Procedure ToolResult) ToolResult)} {team : Nat} {l : Limiter} {outside : σ}
  {c : Crew σ (Procedure ToolResult) ToolResult}

/-- What a team comes to that has run the scanners of some names: one result for each, in their order.
The slots that are taken are those that others hold, and what has been given back are the slots that
its scanners had got and those of others. -/
structure Accounted (r : Runner) (names : List String) (l : Limiter) (team : Nat)
    (c : Crew σ (Procedure ToolResult) ToolResult) : Prop where
  tools : (c.results team).map ToolResult.tool = names
  answers : ∀ x ∈ c.results team, x.Answers x.tool
  active : c.room.limiter.active = l.active + (c.others team).countP fun m => m.post.holds
  processed : c.room.limiter.processed = l.processed +
    (c.ofTeam team).countP (fun m => m.post.gotSlot) + (c.others team).countP fun m => m.post.gaveBack
  registered : ∀ m ∈ c.ofTeam team, m.post.gotSlot = true →
    ∃ name ∈ names, m.task.skipped = passedOver name ∧ (r.registry.get? name).isSome

theorem calls_solo (r : Runner) (env : Environment σ) (repo : String) (languages : List LanguageName)
    (limited : Bool) (names : List String) (signal : Option String) :
    r.Calls env repo languages limited names signal (r.solo env names signal)
      (names.map (r.task repo languages limited 0)) 0 where
  work := rfl
  threads := rfl
  tasks := List.filter_eq_self.mpr fun task htask => by
    obtain ⟨name, -, rfl⟩ := List.mem_map.mp htask
    exact decide_eq_true rfl

theorem Calls.accounted (h : r.Calls env repo languages limited names signal plan tasks team)
    (hreachable : Crew.Reachable plan l tasks outside c) (hfinished : c.TeamFinished team) :
    r.Accounted names l team c where
  tools := (h.results_answer hreachable hfinished).1
  answers x hx := by
    obtain ⟨name, -, hanswers⟩ := (h.results_answer hreachable hfinished).2 x hx
    rwa [hanswers.tool]
  active := hreachable.sound.active_of_teamFinished hfinished
  processed := hreachable.sound.processed_of_teamFinished hfinished
  registered m hm hgot := by
    obtain ⟨hmem, hteam⟩ := List.mem_filter.mp hm
    rw [(hfinished.posts hm).2] at hgot
    obtain ⟨name, hname, htask, s, hs⟩ :=
      h.registered_of_gaveBack hreachable hmem (of_decide_eq_true hteam) hgot
    exact ⟨name, hname, by rw [htask]; rfl, by rw [hs]; rfl⟩

/-- However a schedule goes on, a scanner is never worked on, and comes to nothing but this. -/
def KeptOut (plan : Plan σ (Procedure ToolResult) ToolResult)
    (c : Crew σ (Procedure ToolResult) ToolResult) (i : Nat) (skipped : ToolResult) : Prop :=
  ∀ c', ReflTransGen (Crew.Step plan) c c' → ∃ m, c'.members[i]? = some m ∧ Barred skipped m.post

/-- **Scanners come to one result each, and use the limiter evenly**, in every schedule and whoever
else is at work. Those that have got a slot are counted when the team is done. All tasks can be done,
unless all slots are taken for good, and no schedule goes on for ever. Scanners that run one after the
other and have not been started when the signal fires never are. What the runner comes to by itself is
what its team comes to in one of the schedules. -/
theorem any_schedule_returns
    (h : r.Calls env repo languages limited names signal plan tasks team)
    (hreachable : Crew.Reachable plan l tasks outside c) :
    (c.TeamFinished team → r.Accounted names l team c) ∧
      (∀ (i : Nat) (m : Member (Procedure ToolResult) ToolResult), c.members[i]? = some m →
        m.post.gotSlot = true → ∀ c', ReflTransGen (Crew.Step plan) c c' →
          ∃ m', c'.members[i]? = some m' ∧ m'.task = m.task ∧ m'.post.gotSlot = true) ∧
      (l.hasFree = true → (∀ task ∈ tasks, 0 < (plan.teams task.team).size) → c.Ends plan) ∧
      (r.isSequential names = true → (c.signal plan team).isFired = true →
        ∀ (i : Nat) (m : Member (Procedure ToolResult) ToolResult) name, c.members[i]? = some m →
          m.task = r.task repo languages limited team name → m.post.NotStarted →
            KeptOut plan c i (passedOver name)) ∧
      (l.hasFree = true → env.KeepsSignals → ∀ st : Setting σ,
        (signal = none ↔ st.signal = .absent) → ∃ c',
          Crew.Reachable (r.solo env names signal) l
            (names.map (r.task repo languages st.limiter.isSome 0)) st.outside c' ∧
          c'.Finished ∧ r.Accounted names l 0 c' ∧
          c'.results 0 = (r.runScanners env repo languages (some names) st).1 ∧
          (r.runScanners env repo languages (some names) st).2.limiter = st.limiter.map fun l =>
            l.afterUses (c'.members.countP fun m => m.post.gotSlot)) := by
  refine ⟨h.accounted hreachable,
    fun i m hm hgot c' hrun => hreachable.sound.gotSlot_run hrun hm hgot, fun hfree hsize => ?_, ?_,
    fun hfree hkeeps st hsignal => ?_⟩
  · exact hreachable.ends (by rw [h.work]; exact Procedure.follows_wellFounded env) hfree hsize
  · intro hsequential hfired i m name hm htask hwaits c' hrun
    have hteam : m.task.team = team := by rw [htask]; rfl
    have hskipped : m.task.skipped = passedOver name := by rw [htask]; rfl
    obtain ⟨m', hm', -, hbarred⟩ := h.barred hsequential hreachable hfired hm hteam hwaits hrun
    exact ⟨m', hm', hskipped ▸ hbarred⟩
  · obtain ⟨c', hreachable', hfinished, hresults, -, hlimiter⟩ :=
      exists_schedule hkeeps hfree r repo languages names hsignal
    have hcalls := r.calls_solo env repo languages st.limiter.isSome names signal
    refine ⟨c', hreachable', hfinished, hcalls.accounted hreachable' (hfinished.teamFinished 0),
      hresults, ?_⟩
    rw [hfinished.countP_gotSlot]
    exact hlimiter

/-- A scanner that is run twice and one that nobody knows, with one slot. -/
theorem any_schedule_returns_pressroom :
    let r : Runner := { registry := ⟨[⟨printer, []⟩]⟩ }
    let names := ["printer", "ghost", "printer"]
    ∃ c, Crew.Reachable (r.solo pressroom names none) (.ofCapacity 1)
        (names.map (r.task "/r" [] true 0)) () c ∧ c.Finished ∧
      c.results 0 = [{ tool := "printer" }, { tool := "ghost", error := some "unknown tool: ghost" },
        { tool := "printer" }] ∧
      c.room.limiter.active = 0 ∧ c.room.limiter.processed = 2 := by
  intro r names
  have hkeeps : pressroom.KeepsSignals := fun q _ _ => by cases q <;> exact .inl rfl
  obtain ⟨-, -, -, -, halone⟩ := any_schedule_returns (r.calls_solo pressroom "/r" [] true names none)
    (.refl : Crew.Reachable _ (.ofCapacity 1) _ () _)
  obtain ⟨c, hreachable, hfinished, -, hresults, hlimiter⟩ :=
    halone rfl hkeeps { limiter := some (.ofCapacity 1), outside := () } (iff_of_true rfl rfl)
  have hcount : some 2 = some (0 + c.members.countP fun m => m.post.gotSlot) :=
    congrArg (Option.map Limiter.processed) hlimiter
  rw [hfinished.countP_gotSlot] at hcount
  exact ⟨c, hreachable, hfinished, hresults, hreachable.sound.active_of_finished hfinished,
    hreachable.sound.processed.trans (Option.some.inj hcount).symm⟩

end Runner

end RepoAudit
