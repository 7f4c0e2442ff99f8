import RepoAudit.Proofs.Crew.Answers
import RepoAudit.Proofs.Crew.Scanning
import RepoAudit.Proofs.Crew.Slots

/-!
# Schedules agree

Scanners that run at once, in any order and with whatever waiting for slots, come to what they come to
one after the other, if nobody's answers depend on what the others have asked. What is left of the
work of a scanner then comes to something that its own requests so far determine, and every step keeps
that.

* `Runner.comesTo` — what the scanner of a name comes to;
* `Runner.results_runInOrder` — so do scanners that run one after the other;
* `Runner.Calls.settles` — **so does every scanner of a crew, in whatever schedule**;
* `Runner.any_schedule_agrees` — the two have the same results, and no schedule gets stuck.
-/

namespace RepoAudit

open Relation

variable {σ : Type} {env : Environment σ} {may : Nat → Request → Prop} {start : σ}
  {answer : List Request → (q : Request) → q.Answer} {asked : Nat → List Request} {outside : σ}

/-! ### One after the other -/

namespace Runner

variable {r : Runner} {repo : String} {languages : List LanguageName} {names : List String}

/-- What the scanner of a name comes to when it is answered by what it has asked. -/
def comesTo (r : Runner) (answer : List Request → (q : Request) → q.Answer) (repo : String)
    (languages : List LanguageName) (name : String) : ToolResult :=
  match r.registry.get? name with
  | none => { tool := name, error := some ("unknown tool: " ++ name) }
  | some s => (r.procedure s repo languages).comesTo answer []

theorem opening_comesTo (answer : List Request → (q : Request) → q.Answer) (r : Runner)
    (repo : String) (languages : List LanguageName) (limited : Bool) (team : Nat) (name : String) :
    (r.task repo languages limited team name).opening.comesTo answer =
      r.comesTo answer repo languages name := by
  rcases r.opening_cases repo languages limited team name with ⟨hs, h⟩ | ⟨s, hs, h | h⟩ <;>
    simp [h, hs, comesTo, Opening.comesTo]

/-- A scanner that nobody keeps from running. -/
theorem runScanner_of_history {limited : Bool} {team who : Nat} {name : String}
    (henv : env.AnswersByHistory may start answer)
    (hasks : (r.task repo languages limited team name).opening.AsksOnly (may who))
    {st : Setting σ} (hquiet : st.signal.isFired = false)
    (hasked : env.Asked may start asked st.outside) (hnew : asked who = []) :
    (r.runScanner env name repo languages st).1 = r.comesTo answer repo languages name ∧
      (r.runScanner env name repo languages st).2.signal = st.signal ∧
      ∃ asked', env.Asked may start asked' (r.runScanner env name repo languages st).2.outside ∧
        ∀ j, j ≠ who → asked' j = asked j := by
  cases hs : r.registry.get? name with
  | none => simpa [runScanner, comesTo, hs] using ⟨asked, hasked, fun _ _ => rfl⟩
  | some s =>
    have hasks' : (r.procedure s repo languages).AsksOnly (may who) := by
      cases limited <;> simpa [task, hs, Opening.AsksOnly] using hasks
    obtain ⟨asked', hasked', hothers, hresult⟩ :=
      Procedure.perform_of_history henv hquiet hasks' hasked
    rw [hnew] at hresult
    cases hlimiter : st.limiter with
    | none =>
      simp only [runScanner, hs, Setting.inSlot, hlimiter, runSafely, hresult, comesTo, true_and]
      exact ⟨asked', hasked', hothers⟩
    | some l =>
      simp only [runScanner, hs, Setting.inSlot, hlimiter, hquiet, runSafely, hresult, comesTo,
        Bool.false_eq_true, if_false, true_and]
      exact ⟨asked', hasked', hothers⟩

/-- **Scanners that run one after the other come to what each of them comes to.** The induction is on
all tasks, so that every scanner asks under the position of its task. -/
theorem results_runInOrder {limited : Bool} {team : Nat}
    (henv : env.AnswersByHistory may start answer) (watchful : Bool)
    (tasks : List (Task (Procedure ToolResult) ToolResult)) (names : List String) (who : Nat)
    (hnames : (tasks.filter fun task => task.team = team) =
      names.map (r.task repo languages limited team))
    (hasks : ∀ (i : Nat) (task : Task _ _), tasks[i]? = some task →
      task.opening.AsksOnly (may (who + i)))
    {st : Setting σ} (hquiet : st.signal.isFired = false)
    (hasked : env.Asked may start asked st.outside) (hnew : ∀ j, who ≤ j → asked j = []) :
    (r.runInOrder env watchful repo languages names st).1 =
      names.map (r.comesTo answer repo languages) := by
  induction tasks generalizing names who st asked with
  | nil =>
    obtain rfl : names = [] := List.map_eq_nil_iff.mp hnames.symm
    rfl
  | cons task tasks ih =>
    have hasks' : ∀ (i : Nat) (task : Task _ _), tasks[i]? = some task →
        task.opening.AsksOnly (may (who + 1 + i)) := by
      intro i task hi
      rw [Nat.add_assoc, Nat.add_comm 1]
      exact hasks (i + 1) task hi
    by_cases hteam : task.team = team
    · simp only [List.filter_cons, hteam, decide_true, if_true] at hnames
      cases names with
      | nil => cases hnames
      | cons name names =>
        rw [List.map_cons, List.cons.injEq] at hnames
        obtain ⟨rfl, hnames⟩ := hnames
        obtain ⟨hresult, hsignal, asked', hasked', hothers⟩ :=
          runScanner_of_history henv (hasks 0 _ rfl) hquiet hasked (hnew who (Nat.le_refl _))
        have hrest := ih names (who + 1) hnames hasks' (hsignal ▸ hquiet) hasked' fun j hj => by
          rw [hothers j (Nat.ne_of_gt hj), hnew j (Nat.le_of_succ_le hj)]
        simp only [runInOrder, hquiet, Bool.and_false, Bool.false_eq_true, if_false, List.map_cons]
        rw [hresult, hrest]
    · simp only [List.filter_cons, hteam, decide_false, Bool.false_eq_true, if_false] at hnames
      exact ih names (who + 1) hnames hasks' hquiet hasked fun j hj => hnew j (Nat.le_of_succ_le hj)

end Runner

namespace Runner

variable {r : Runner} {repo : String} {languages : List LanguageName} {names : List String}

/-! ### At once -/

/-- What holds of a scanner that is on its way to a result, with what it has asked. -/
def Settles (answer : List Request → (q : Request) → q.Answer) (result : ToolResult)
    (history : List Request) : Post (Procedure ToolResult) ToolResult → Prop
  | .waiting => history = []
  | .asking _ p | .admitted p => history = [] ∧ p.comesTo answer [] = result
  | .turnedAway _ => False
  | .working _ p => p.comesTo answer history = result
  | .ended x | .done _ x => x = result

variable {limited : Bool} {signal : Option String}
  {plan : Plan σ (Procedure ToolResult) ToolResult}
  {tasks : List (Task (Procedure ToolResult) ToolResult)} {team : Nat} {l : Limiter}
  {c : Crew σ (Procedure ToolResult) ToolResult} {m : Member (Procedure ToolResult) ToolResult}
  {p : Post (Procedure ToolResult) ToolResult}

/-- Whoever works on a task, with or without a slot, makes only certain requests. -/
def AsksOnly (allowed : Request → Prop) : Post (Procedure ToolResult) ToolResult → Prop :=
  Crew.Known (fun _ p => p.AsksOnly allowed) fun _ _ => True

/-- Whoever works on a task makes only the requests that its work makes. -/
theorem asksOnly_of_reachable (hwork : plan.work = .scanning env)
    (hasks : ∀ (i : Nat) (task : Task _ _), tasks[i]? = some task → task.opening.AsksOnly (may i))
    (hreachable : Crew.Reachable plan l tasks start c) {i : Nat} (hm : c.members[i]? = some m) :
    AsksOnly (may i) m.post := by
  have hkept : ∀ (task : Task (Procedure ToolResult) ToolResult) (allowed : Request → Prop),
      task.opening.AsksOnly allowed →
        Crew.Kept plan task (fun _ p => p.AsksOnly allowed) fun _ _ => True := by
    intro task allowed hopening
    constructor
    case skipped => trivial
    case settled => exact fun _ => trivial
    case free =>
      intro p hfree
      rw [hfree] at hopening
      exact hopening
    case held =>
      intro refused p hheld
      rw [hheld] at hopening
      exact ⟨trivial, hopening⟩
    case step =>
      intro _ p hp _ signal outside
      rw [hwork]
      exact hp.advance env signal outside
    case outcome => exact fun _ _ => trivial
  refine (hreachable.member_at (P := fun i m => m.task.opening.AsksOnly (may i) ∧
    AsksOnly (may i) m.post) (fun i task hi => ⟨hasks i task hi, trivial⟩) ?_ hm).2
  rintro d - i m p outside - hmoved ⟨hopening, hknown⟩
  exact ⟨hopening, hmoved.known (hkept m.task (may i) hopening) hknown⟩

/-- A move of a scanner that nobody keeps from running leads to the same result. Only work asks for
something. -/
theorem settles_moved (h : r.Calls env repo languages limited names signal plan tasks team)
    (henv : env.AnswersByHistory may start answer) (hquiet : (c.signal plan team).isFired = false)
    {who : Nat} {name : String} (hasks : AsksOnly (may who) m.post)
    (htask : m.task = r.task repo languages limited team name)
    (hasked : env.Asked may start asked c.outside) (hmoved : Crew.Moved plan c m p outside)
    (hsettles : Settles answer (r.comesTo answer repo languages name) (asked who) m.post) :
    ∃ asked', env.Asked may start asked' outside ∧ (∀ j, j ≠ who → asked' j = asked j) ∧
      Settles answer (r.comesTo answer repo languages name) (asked' who) p := by
  have hteam : m.task.team = team := by rw [htask]; rfl
  have hcomesTo := opening_comesTo answer r repo languages limited team name
  have hnobody : ¬ Crew.PassesOver plan c m.task.team := by
    rw [hteam]
    exact fun hpasses => by simp [hpasses.2] at hquiet
  cases hmoved with
  | passOver _ hpasses => exact absurd hpasses hnobody
  | settle hpost _ hopening =>
    rw [htask] at hopening
    exact ⟨asked, hasked, fun _ _ => rfl, (hopening ▸ hcomesTo :)⟩
  | begin hpost _ hopening =>
    rw [hpost] at hsettles
    rw [htask] at hopening
    refine ⟨asked, hasked, fun _ _ => rfl, ?_⟩
    rw [Settles, hsettles]
    exact (hopening ▸ hcomesTo :)
  | ask hpost _ hopening =>
    rw [hpost] at hsettles
    rw [htask] at hopening
    exact ⟨asked, hasked, fun _ _ => rfl, hsettles, (hopening ▸ hcomesTo :)⟩
  | stay hpost =>
    rw [hpost] at hsettles
    exact ⟨asked, hasked, fun _ _ => rfl, hsettles⟩
  | grant hpost _ =>
    rw [hpost] at hsettles
    exact ⟨asked, hasked, fun _ _ => rfl, hsettles⟩
  | refuse _ hfired => simp [hteam, hquiet] at hfired
  | getThrough hpost =>
    rw [hpost] at hsettles
    refine ⟨asked, hasked, fun _ _ => rfl, ?_⟩
    rw [Settles, hsettles.1]
    exact hsettles.2
  | giveUp hpost =>
    rw [hpost] at hsettles
    exact hsettles.elim
  | @work held t hpost hgoing =>
    rw [hpost] at hsettles
    rw [h.work] at hgoing ⊢
    cases t with
    | done x => cases hgoing
    | ask q next =>
      rw [hpost] at hasks
      have hanswer := henv.answers hasked hasks.1 (c.signal plan m.task.team) (by rw [hteam]; exact hquiet)
      refine ⟨_, hasked.ask hasks.1 (c.signal plan m.task.team),
        fun j hj => Function.update_of_ne hj .., ?_⟩
      rw [Function.update_self]
      show Procedure.comesTo answer _ (next (env.answer q _ c.outside).1.1) = _
      rw [hanswer]
      exact hsettles
  | @complete held t x hpost houtcome =>
    rw [hpost] at hsettles
    rw [h.work] at houtcome
    cases t with
    | ask q next => cases houtcome
    | done y =>
      obtain rfl := Option.some.inj houtcome
      refine ⟨asked, hasked, fun _ _ => rfl, ?_⟩
      cases held <;> exact hsettles
  | giveBack hpost =>
    rw [hpost] at hsettles
    exact ⟨asked, hasked, fun _ _ => rfl, hsettles⟩

/-- Somebody of another team moves: it may ask for something, which concerns nobody else. -/
theorem asked_moved (h : plan.work = .scanning env) (hasked : env.Asked may start asked c.outside)
    (hmoved : Crew.Moved plan c m p outside) {who : Nat} (hasks : AsksOnly (may who) m.post) :
    ∃ asked', env.Asked may start asked' outside ∧ ∀ j, j ≠ who → asked' j = asked j := by
  cases hmoved with
  | @work held t hpost hgoing =>
    rw [h] at hgoing ⊢
    cases t with
    | done x => cases hgoing
    | ask q next =>
      rw [hpost] at hasks
      exact ⟨_, hasked.ask hasks.1 (c.signal plan m.task.team),
        fun j hj => Function.update_of_ne hj ..⟩
  | _ => exact ⟨asked, hasked, fun _ _ => rfl⟩

/-- Somebody moves, of the team or of another: if it is a scanner of the team it goes on to the same
result, and what the others have asked is the same. -/
theorem exists_asked_moved (h : r.Calls env repo languages limited names signal plan tasks team)
    (henv : env.AnswersByHistory may start answer) (hquiet : (c.signal plan team).isFired = false)
    {who : Nat} (hasks : AsksOnly (may who) m.post) (hasked : env.Asked may start asked c.outside)
    (hmoved : Crew.Moved plan c m p outside)
    (hsettles : ∀ name, m.task = r.task repo languages limited team name →
      Settles answer (r.comesTo answer repo languages name) (asked who) m.post) :
    ∃ asked', env.Asked may start asked' outside ∧ (∀ j, j ≠ who → asked' j = asked j) ∧
      ∀ name, m.task = r.task repo languages limited team name →
        Settles answer (r.comesTo answer repo languages name) (asked' who) p := by
  by_cases hmine : ∃ name, m.task = r.task repo languages limited team name
  · obtain ⟨name, htask⟩ := hmine
    obtain ⟨asked', hasked', hothers, hsettles'⟩ :=
      settles_moved h henv hquiet hasks htask hasked hmoved (hsettles name htask)
    refine ⟨asked', hasked', hothers, fun name' htask' => ?_⟩
    obtain rfl : name = name' := congrArg (fun task => task.skipped.tool) (htask.symm.trans htask')
    exact hsettles'
  · obtain ⟨asked', hasked', hothers⟩ := asked_moved h.work hasked hmoved hasks
    exact ⟨asked', hasked', hothers, fun name htask => absurd ⟨name, htask⟩ hmine⟩

/-- **Every scanner of a team whose signal does not fire is on its way to what it comes to alone.** -/
theorem Calls.settles (h : r.Calls env repo languages limited names signal plan tasks team)
    (henv : env.AnswersByHistory may start answer)
    (hasks : ∀ (i : Nat) (task : Task _ _), tasks[i]? = some task → task.opening.AsksOnly (may i))
    (hreachable : Crew.Reachable plan l tasks start c)
    (hquiet : (c.signal plan team).isFired = false) :
    ∃ asked, env.Asked may start asked c.outside ∧ ∀ i m name, c.members[i]? = some m →
      m.task = r.task repo languages limited team name →
        Settles answer (r.comesTo answer repo languages name) (asked i) m.post := by
  induction hreachable with
  | refl =>
    refine ⟨_, .nothing, fun i m name hm _ => ?_⟩
    obtain ⟨task, -, rfl⟩ := List.mem_map.mp (List.mem_of_getElem? hm)
    exact rfl
  | @tail b c hbefore hstep ih =>
    have hsound : b.Sound plan l tasks := Crew.Reachable.sound hbefore
    -- a signal that has not fired had not fired before
    have hquiet' : (b.signal plan team).isFired = false := by
      cases hfired : (b.signal plan team).isFired with
      | false => rfl
      | true => exact absurd (Crew.signal_step hstep hsound hfired) (by simp [hquiet])
    obtain ⟨asked, hasked, hsettles⟩ := ih hquiet'
    rcases hstep.moved hsound with ⟨hmembers, houtside⟩ | ⟨i, m, p, hm, hmoved, hmembers⟩
    · rw [houtside]
      refine ⟨asked, hasked, ?_⟩
      rw [hmembers]
      exact hsettles
    · obtain ⟨asked', hasked', hothers, hmine⟩ := exists_asked_moved h henv hquiet'
        (asksOnly_of_reachable h.work hasks hbefore hm) hasked hmoved fun name => hsettles i m name hm
      refine ⟨asked', hasked', fun j m' name hm' htask => ?_⟩
      rw [hmembers, Crew.getElem?_put hm] at hm'
      split at hm'
      · next heq =>
        subst heq
        obtain rfl := Option.some.inj hm'
        exact hmine name htask
      · next hne =>
        rw [hothers j (Ne.symm hne)]
        exact hsettles j m' name hm' htask

/-- A team whose signal does not fire comes to what its scanners come to one after the other. -/
theorem Calls.results_eq (h : r.Calls env repo languages limited names signal plan tasks team)
    (henv : env.AnswersByHistory may start answer)
    (hasks : ∀ (i : Nat) (task : Task _ _), tasks[i]? = some task → task.opening.AsksOnly (may i))
    (hreachable : Crew.Reachable plan l tasks start c)
    (hquiet : (c.signal plan team).isFired = false) (hfinished : c.TeamFinished team) :
    c.results team = names.map (r.comesTo answer repo languages) := by
  obtain ⟨asked, -, hsettles⟩ := h.settles henv hasks hreachable hquiet
  have hresults : (c.results team).map id =
      ((c.members.map Member.task).filter fun task => task.team = team).map
        fun task => task.opening.comesTo answer := by
    refine Crew.map_results fun m hm hteam => ?_
    obtain ⟨i, hi⟩ := List.mem_iff_getElem?.mp hm
    obtain ⟨name, -, htask, -⟩ := h.known hreachable hm hteam
    have hsettled := hsettles i m name hi htask
    obtain ⟨x, hx⟩ := Option.isSome_iff_exists.mp (hfinished m hm hteam)
    refine ⟨x, hx, ?_⟩
    rw [htask, opening_comesTo]
    cases hpost : m.post with
    | done held y =>
      rw [hpost] at hsettled hx
      cases hx
      exact hsettled
    | _ =>
      rw [hpost] at hx
      cases hx
  rw [List.map_id] at hresults
  rw [hresults, hreachable.sound.tasks, h.tasks, List.map_map]
  exact List.map_congr_left fun name _ => opening_comesTo ..

/-- **Schedules agree.** A team that runs the scanners of some names at once, while others share the
limiter, and whose signal does not fire, comes to what the scanners come to one after the other, where
nobody's answers depend on what the others ask; and until all tasks are done somebody can move, if
every team has a thread and some slot is not taken for good. -/
theorem any_schedule_agrees (h : r.Calls env repo languages limited names signal plan tasks team)
    (henv : env.Undisturbed tasks start answer)
    (hreachable : Crew.Reachable plan l tasks start c)
    (hquiet : (c.signal plan team).isFired = false) :
    (c.TeamFinished team → ∀ st : Setting σ, st.outside = start → st.signal.isFired = false →
      c.results team = (runScanners { r with parallel := 1 } env repo languages (some names) st).1) ∧
      (l.hasFree = true → (∀ task ∈ tasks, 0 < (plan.teams task.team).size) →
        c.Finished ∨ ∃ c', Crew.Move plan c c') := by
  obtain ⟨may, henv, hasks⟩ := henv
  refine ⟨fun hfinished st hstart hst => ?_, fun hfree hsize => ?_⟩
  · have halone : (runScanners { r with parallel := 1 } env repo languages (some names) st).1 =
        names.map (r.comesTo answer repo languages) := by
      refine results_runInOrder (r := { r with parallel := 1 }) henv _ tasks names 0 h.tasks ?_ hst
        (hstart ▸ .nothing) fun _ _ => rfl
      simpa using hasks
    rw [h.results_eq henv hasks hreachable hquiet hfinished, halone]
  · by_cases hfinished : c.Finished
    · exact .inl hfinished
    · exact .inr (hreachable.sound.exists_move hfree hsize hfinished)

/-! A scanner that prints what it has found, and one that writes it to a file. -/

/-- A scanner whose report is a file. -/
def filer : Scanner where
  name := "filer"
  command := "filer"
  description := ""
  args _ _ := .ok []
  collect _ _ := .ofFile "report"
  read text := if text = "filed" then .ok [] else .error text

/-- What the two programs print and write. -/
def deskReports (inv : Invocation) : List (String × String) :=
  if inv.program = "filer" then [("report", "filed")] else []

/-- The place where the two programs run. -/
def desk : Environment (String → Option String) :=
  .filing (fun inv => .ok ⟨inv.program, 0, "printed", ""⟩) deskReports

/-- The runner of the two scanners, both at once. -/
def deskRunner : Runner where
  registry := ⟨[⟨printer, []⟩, ⟨filer, []⟩]⟩
  parallel := 2

/-- The requests of the two scanners. -/
def deskMay : Nat → Request → Prop
  | 0, .run inv => inv.program = "printer"
  | 1, .run inv => inv.program = "filer"
  | 1, .readBack path | 1, .discard path => path = "report"
  | _, _ => False

theorem deskMay_separate {i j : Nat} (hne : i ≠ j) {q q' : Request} (hq : deskMay i q)
    (hq' : deskMay j q') {path : String} (hpath : path ∈ Environment.touched deskReports q) :
    path ∉ Environment.touched deskReports q' := by
  -- the first asker has nothing to do with any file, and there is no third one
  have hnone : ∀ q, deskMay 0 q → Environment.touched deskReports q = [] := by
    intro q hq
    cases q with
    | run inv =>
      have hprogram : inv.program = "printer" := hq
      simp [Environment.touched, deskReports, hprogram]
    | readBack => exact hq.elim
    | discard => exact hq.elim
  have hfew : ∀ k q, ¬ deskMay (k + 2) q := by
    intro k q hq
    cases q <;> exact hq
  match i, j with
  | 0, _ =>
    rw [hnone q hq] at hpath
    exact absurd hpath List.not_mem_nil
  | 1, 0 =>
    rw [hnone q' hq']
    exact List.not_mem_nil
  | 1, 1 => exact absurd rfl hne
  | 1, k + 2 => exact absurd hq' (hfew k q')
  | k + 2, _ => exact absurd hq (hfew k q)

/-- The two scanners at once, sharing one slot, come to what they come to one after the other. -/
theorem any_schedule_agrees_desk :
    let names := ["printer", "filer"]
    let plan : Plan _ (Procedure ToolResult) ToolResult :=
      { teams := fun _ => deskRunner.team names none, work := .scanning desk }
    let tasks := names.map (deskRunner.task "/r" [] true 0)
    ∃ c, Crew.Reachable plan (.ofCapacity 1) tasks (fun _ => none) c ∧ c.TeamFinished 0 ∧
      c.results 0 = [{ tool := "printer" }, { tool := "filer" }] := by
  intro names plan tasks
  have hcalls : deskRunner.Calls desk "/r" [] true names none plan tasks 0 := ⟨rfl, rfl, rfl⟩
  have hsize : ∀ task ∈ tasks, 0 < (plan.teams task.team).size :=
    fun _ _ => Nat.zero_lt_two
  obtain ⟨c, hrun, hfinished⟩ := (Crew.sound_start plan (.ofCapacity 1) tasks fun _ => none).exists_finished
    (Procedure.follows_wellFounded desk) rfl hsize
  have hreachable : Crew.Reachable plan (.ofCapacity 1) tasks (fun _ => none) c :=
    Crew.Reachable.moves .refl hrun
  have hasks : ∀ (i : Nat) (task : Task _ _), tasks[i]? = some task →
      task.opening.AsksOnly (deskMay i) := by
    intro i task hi
    match i with
    | 0 =>
      obtain rfl := Option.some.inj hi
      exact ⟨rfl, fun x => by cases x <;> trivial⟩
    | 1 =>
      obtain rfl := Option.some.inj hi
      refine ⟨rfl, fun x => ?_⟩
      cases x with
      | error e => trivial
      | ok f =>
        refine ⟨rfl, fun y => ?_⟩
        cases y with
        | error m => trivial
        | ok text => exact ⟨rfl, fun _ => trivial⟩
    | i + 2 => cases hi
  have henv : desk.AnswersByHistory deskMay (fun _ => none) _ :=
    Environment.answersByHistory_filing (fun _ _ hne _ _ hq hq' _ hpath =>
      deskMay_separate hne hq hq' hpath) _
  have hagree := any_schedule_agrees hcalls ⟨deskMay, henv, hasks⟩ hreachable rfl
  exact ⟨c, hreachable, hfinished.teamFinished 0, hagree.1 (hfinished.teamFinished 0)
    { outside := fun _ => none } rfl rfl⟩

end Runner

end RepoAudit
