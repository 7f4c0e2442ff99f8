import RepoAudit.Proofs.Crew.Ending
import RepoAudit.Proofs.Crew.Progress

/-!
# Scanners that run at once

What a runner makes of the scanners of some names, in every schedule. Whatever goes wrong in a
scanner is absorbed in one of three places: in the run itself, around it, and where a slot is asked
for. So each name has one result, and each slot that is taken is given back.

* `ToolResult.Answers` — a result that carries a name, with findings only if nothing went wrong;
* `Runner.procedure_always`, `Runner.task_kept` — a scanner comes to such a result whatever it does,
  and so does the task of its name;
* `Runner.Calls` — a team of a crew runs the scanners of some names;
* `Runner.Calls.results_answer` — **one result for each name, in the order of the names**;
* `Runner.Calls.registered_of_gaveBack` — whoever gives a slot back is a scanner that there is;
* `Runner.Calls.barred` — a scanner that has not been started when the signal fires never is.
-/

namespace RepoAudit

open Relation

variable {σ α β : Type}

/-! ### Results -/

/-- A result carries a name. It has findings only if the run ended in time and without an error, and
it has not done both, run out of time and ended with an error. -/
structure ToolResult.Answers (x : ToolResult) (name : String) : Prop where
  tool : x.tool = name
  empty : x.timedOut = true ∨ x.error.isSome = true → x.findings = []
  exclusive : ¬ (x.timedOut = true ∧ x.error.isSome = true)

namespace ToolResult.Answers

theorem of_error (name : String) (m : Option String) :
    ToolResult.Answers { tool := name, error := m } name where
  tool := rfl
  empty _ := rfl
  exclusive h := absurd h.1 Bool.false_ne_true

theorem of_timedOut (name : String) :
    ToolResult.Answers { tool := name, timedOut := true } name where
  tool := rfl
  empty _ := rfl
  exclusive h := absurd h.2 Bool.false_ne_true

theorem of_findings (name : String) (fs : List RawFinding) :
    ToolResult.Answers { tool := name, findings := fs } name where
  tool := rfl
  empty h := by rcases h with h | h <;> cases h
  exclusive h := absurd h.1 Bool.false_ne_true

end ToolResult.Answers

/-! ### What a procedure comes to -/

namespace Procedure

variable {P : α → Prop} {Q : β → Prop} {p : Procedure α}

/-- A procedure comes to something with a property, whatever its requests are answered. -/
def Always (P : α → Prop) : Procedure α → Prop
  | done x => P x
  | ask _ next => ∀ x, (next x).Always P

theorem always_of_forall (h : ∀ x, P x) (p : Procedure α) : p.Always P := by
  induction p with
  | done x => exact h x
  | ask q next ih => exact ih

theorem Always.mono (h : p.Always P) {P' : α → Prop} (himp : ∀ x, P x → P' x) : p.Always P' := by
  induction p with
  | done x => exact himp x h
  | ask q next ih => exact fun x => ih x (h x)

theorem Always.map {f : α → β} (h : p.Always fun x => Q (f x)) : (p.map f).Always Q := by
  induction p with
  | done x => exact h
  | ask q next ih => exact fun x => ih x (h x)

theorem Always.perform (h : p.Always P) (env : Environment σ) (signal : Signal) (outside : σ) :
    P (p.perform env signal outside).1.1 := by
  induction p generalizing signal outside with
  | done x => exact h
  | ask q next ih => exact ih _ (h _) _ _

theorem Always.advance (h : p.Always P) (env : Environment σ) (signal : Signal) (outside : σ) :
    (p.advance env signal outside).1.1.Always P := by
  cases p with
  | done x => exact h
  | ask q next => exact h _

end Procedure

namespace Scanner

variable {s : Scanner}

theorem failed_answers (s : Scanner) (e : Execution.Failure) {x : ToolResult}
    (h : s.failed e = .ok x) : x.Answers s.name := by
  cases e with
  | timedOut => cases h; exact .of_timedOut _
  | cancelled => cases h; exact .of_error ..
  | system => cases h; exact .of_error ..
  | crashed => cases h

theorem reported_answers (s : Scanner) (repo : String) (report : Except String String)
    {x : ToolResult} (h : s.reported repo report = .ok x) : x.Answers s.name := by
  cases report with
  | error m => cases h
  | ok text =>
    rw [reported] at h
    cases hread : s.read text with
    | error m => simp [hread, Except.map] at h
    | ok fs =>
      simp only [hread, Except.map, Except.ok.injEq] at h
      exact h ▸ .of_findings ..

/-- A run that comes to a result comes to one of its scanner. -/
theorem procedure_always (s : Scanner) (repo : String) (languages : List String) (limit : Duration) :
    (s.procedure repo languages limit).Always fun x => ∀ y, x = .ok y → y.Answers s.name := by
  rw [procedure]
  split
  · exact fun y h => s.failed_answers _ h
  · intro reply
    cases reply with
    | error e => exact fun y h => s.failed_answers _ h
    | ok f => exact (Procedure.always_of_forall (fun x y h => s.reported_answers repo _ h) _).map

end Scanner

/-! ### The runner -/

theorem Registry.name_of_get? {registry : Registry} {name : String} {s : Scanner}
    (h : registry.get? name = some s) : s.name = name := by
  obtain ⟨e, he, rfl⟩ := Option.map_eq_some_iff.mp h
  simpa using List.find?_some he

namespace Runner

variable {r : Runner} {s : Scanner} {repo name : String} {languages : List LanguageName}
  {names : List String} {limited : Bool} {team : Nat}

theorem absorbed_answers {x : Except String ToolResult} (h : ∀ y, x = .ok y → y.Answers s.name) :
    (absorbed s x).Answers s.name := by
  cases x with
  | error m => exact .of_error ..
  | ok y => exact h y rfl

/-- **A scanner comes to a result of its name whatever goes wrong.** -/
theorem procedure_always (r : Runner) (s : Scanner) (repo : String) (languages : List LanguageName) :
    (r.procedure s repo languages).Always fun x => x.Answers s.name :=
  ((s.procedure_always repo _ r.limit).mono fun _ hx => absorbed_answers hx).map

theorem passedOver_answers (name : String) : (passedOver name).Answers name := .of_error ..

/-- The work for a name that is done with or without a slot: it comes to a result of the name, and a
slot is held only for a scanner that there is. -/
def Doing (r : Runner) (name : String) (held : Bool) (p : Procedure ToolResult) : Prop :=
  (held = true → ∃ s, r.registry.get? name = some s) ∧ p.Always fun x => x.Answers name

/-- What such work comes to. -/
def Coming (r : Runner) (name : String) (held : Bool) (x : ToolResult) : Prop :=
  (held = true → ∃ s, r.registry.get? name = some s) ∧ x.Answers name

/-- How the task of a name begins. -/
theorem opening_cases (r : Runner) (repo : String) (languages : List LanguageName) (limited : Bool)
    (team : Nat) (name : String) :
    (r.registry.get? name = none ∧ (r.task repo languages limited team name).opening =
        .settled { tool := name, error := some ("unknown tool: " ++ name) }) ∨
      ∃ s, r.registry.get? name = some s ∧
        ((r.task repo languages limited team name).opening =
            .held (passedOver name) (r.procedure s repo languages) ∨
          (r.task repo languages limited team name).opening =
            .free (r.procedure s repo languages)) := by
  cases hs : r.registry.get? name with
  | none => exact .inl ⟨rfl, by simp [task, hs]⟩
  | some s => cases limited <;> exact .inr ⟨s, rfl, by simp [task, hs]⟩

/-- **The task of a name keeps to results of that name.** -/
theorem task_kept {plan : Plan σ (Procedure ToolResult) ToolResult} {env : Environment σ}
    (hwork : plan.work = .scanning env) (r : Runner) (repo : String) (languages : List LanguageName)
    (limited : Bool) (team : Nat) (name : String) :
    Crew.Kept plan (r.task repo languages limited team name) (r.Doing name) (r.Coming name) := by
  have hscanner : ∀ s, r.registry.get? name = some s →
      (r.procedure s repo languages).Always fun x => x.Answers name := fun s hs => by
    have hall := r.procedure_always s repo languages
    rwa [Registry.name_of_get? hs] at hall
  have hcases := r.opening_cases repo languages limited team name
  constructor
  case skipped => exact ⟨nofun, passedOver_answers name⟩
  case settled =>
    intro x hopening
    rcases hcases with ⟨-, h⟩ | ⟨s, hs, h | h⟩ <;> rw [h] at hopening <;> cases hopening
    exact ⟨nofun, .of_error ..⟩
  case free =>
    intro p hopening
    rcases hcases with ⟨-, h⟩ | ⟨s, hs, h | h⟩ <;> rw [h] at hopening <;> cases hopening
    exact ⟨nofun, hscanner s hs⟩
  case held =>
    intro refused p hopening
    rcases hcases with ⟨-, h⟩ | ⟨s, hs, h | h⟩ <;> rw [h] at hopening <;> cases hopening
    exact ⟨⟨nofun, passedOver_answers name⟩, fun _ => ⟨s, hs⟩, hscanner s hs⟩
  case step =>
    rintro held p ⟨hheld, hall⟩ - signal outside
    rw [hwork]
    exact ⟨hheld, hall.advance env signal outside⟩
  case outcome =>
    rintro held p x ⟨hheld, hall⟩ houtcome
    rw [hwork] at houtcome
    cases p with
    | done y =>
      obtain rfl := Option.some.inj houtcome
      exact ⟨hheld, hall⟩
    | ask => cases houtcome

/-- A scanner that is kept from taking a slot comes to what it comes to when it is passed over. -/
theorem refused_eq {refused : ToolResult} {p : Procedure ToolResult}
    (h : (r.task repo languages limited team name).opening = .held refused p) :
    refused = passedOver name := by
  rcases r.opening_cases repo languages limited team name with ⟨-, hopening⟩ | ⟨s, -, hopening | hopening⟩ <;>
    rw [hopening] at h <;> cases h
  rfl

/-! ### A team that runs scanners -/

/-- A team of a crew runs the scanners of some names, with slots if there is a limiter. -/
structure Calls (r : Runner) (env : Environment σ) (repo : String) (languages : List LanguageName)
    (limited : Bool) (names : List String) (signal : Option String)
    (plan : Plan σ (Procedure ToolResult) ToolResult)
    (tasks : List (Task (Procedure ToolResult) ToolResult)) (team : Nat) : Prop where
  work : plan.work = .scanning env
  threads : plan.teams team = r.team names signal
  tasks : (tasks.filter fun task => task.team = team) = names.map (r.task repo languages limited team)

end Runner

namespace Crew

variable {τ γ : Type} {plan : Plan σ τ α} {tasks : List (Task τ α)} {c : Crew σ τ α} {team : Nat}

/-- The results of a team, seen through the tasks that they belong to. -/
theorem map_results {f : α → γ} {g : Task τ α → γ}
    (h : ∀ m ∈ c.members, m.task.team = team → ∃ x, m.post.result? = some x ∧ f x = g m.task) :
    (c.results team).map f =
      ((c.members.map Member.task).filter fun task => task.team = team).map g := by
  rw [results]
  generalize c.members = members at h
  induction members with
  | nil => rfl
  | cons m ms ih =>
    have hrest := ih fun m' hm' => h m' (List.mem_cons_of_mem m hm')
    by_cases hteam : m.task.team = team
    · obtain ⟨x, hx, hf⟩ := h m List.mem_cons_self hteam
      simp only [List.filter_cons, List.map_cons, hteam, decide_true, if_true,
        List.filterMap_cons, hx, hf, hrest]
    · simpa only [List.filter_cons, List.map_cons, hteam, decide_false, Bool.false_eq_true,
        if_false] using hrest

/-- Whether the tasks of a team are done. -/
def TeamFinished (c : Crew σ τ α) (team : Nat) : Prop :=
  ∀ m ∈ c.members, m.task.team = team → m.post.result?.isSome

theorem Finished.teamFinished (h : c.Finished) (team : Nat) : c.TeamFinished team := fun m hm _ => h m hm

end Crew

namespace Runner

variable {r : Runner} {env : Environment σ} {repo : String} {languages : List LanguageName}
  {names : List String} {limited : Bool} {signal : Option String}
  {plan : Plan σ (Procedure ToolResult) ToolResult}
  {tasks : List (Task (Procedure ToolResult) ToolResult)} {team : Nat} {l : Limiter} {outside : σ}
  {c : Crew σ (Procedure ToolResult) ToolResult}

/-- The tasks of the team are those of the names. -/
theorem Calls.exists_name (h : r.Calls env repo languages limited names signal plan tasks team)
    {task : Task (Procedure ToolResult) ToolResult} (htask : task ∈ tasks)
    (hteam : task.team = team) :
    ∃ name ∈ names, task = r.task repo languages limited team name := by
  have hmem : task ∈ tasks.filter fun task => task.team = team :=
    List.mem_filter.mpr ⟨htask, decide_eq_true hteam⟩
  rw [h.tasks] at hmem
  obtain ⟨name, hname, rfl⟩ := List.mem_map.mp hmem
  exact ⟨name, hname, rfl⟩

/-- What is known of the scanners of a team in every crew. -/
theorem Calls.known (h : r.Calls env repo languages limited names signal plan tasks team)
    (hreachable : Crew.Reachable plan l tasks outside c) {m : Member (Procedure ToolResult) ToolResult}
    (hm : m ∈ c.members) (hteam : m.task.team = team) :
    ∃ name ∈ names, m.task = r.task repo languages limited team name ∧
      Crew.Known (r.Doing name) (r.Coming name) m.post := by
  have htasks : m.task ∈ tasks := by
    rw [← hreachable.sound.tasks]
    exact List.mem_map_of_mem hm
  obtain ⟨name, hname, htask⟩ := h.exists_name htasks hteam
  refine ⟨name, hname, htask, ?_⟩
  obtain ⟨i, hi⟩ := List.mem_iff_getElem?.mp hm
  refine hreachable.member_at (P := fun _ m => ∀ name,
    m.task = r.task repo languages limited team name → Crew.Known (r.Doing name) (r.Coming name) m.post)
    (fun _ _ _ _ _ => trivial) ?_ hi name htask
  intro d _ _ m p outside _ hmoved hknown name htask
  exact hmoved.known (htask ▸ task_kept h.work r repo languages limited team name)
    (hknown name htask)

/-- **One result for each name, in the order of the names.** -/
theorem Calls.results_answer (h : r.Calls env repo languages limited names signal plan tasks team)
    (hreachable : Crew.Reachable plan l tasks outside c) (hfinished : c.TeamFinished team) :
    (c.results team).map ToolResult.tool = names ∧
      ∀ x ∈ c.results team, ∃ name ∈ names, x.Answers name := by
  have hanswer : ∀ m ∈ c.members, m.task.team = team → ∃ x name, m.post.result? = some x ∧
      name ∈ names ∧ x.Answers name ∧ m.task.skipped.tool = name := by
    intro m hm hteam
    obtain ⟨name, hname, htask, hknown⟩ := h.known hreachable hm hteam
    obtain ⟨x, hx⟩ := Option.isSome_iff_exists.mp (hfinished m hm hteam)
    refine ⟨x, name, hx, hname, ?_, by rw [htask]; rfl⟩
    cases hpost : m.post with
    | done held y =>
      rw [hpost] at hknown hx
      cases hx
      exact hknown.2
    | _ =>
      rw [hpost] at hx
      cases hx
  constructor
  · have hresults : (c.results team).map ToolResult.tool =
        ((c.members.map Member.task).filter fun task => task.team = team).map
          fun task => task.skipped.tool :=
      Crew.map_results fun m hm hteam => by
        obtain ⟨x, name, hx, -, hx', hskipped⟩ := hanswer m hm hteam
        exact ⟨x, hx, hx'.tool.trans hskipped.symm⟩
    rw [hresults, hreachable.sound.tasks, h.tasks, List.map_map]
    exact List.map_id _
  · intro x hx
    obtain ⟨m, hmem, hx⟩ := List.mem_filterMap.mp hx
    obtain ⟨hm, hteam⟩ := List.mem_filter.mp hmem
    obtain ⟨y, name, hy, hname, hanswers, -⟩ := hanswer m hm (of_decide_eq_true hteam)
    obtain rfl := Option.some.inj (hx.symm.trans hy)
    exact ⟨name, hname, hanswers⟩

/-- Whoever has given a slot back was a scanner that there is. -/
theorem Calls.registered_of_gaveBack
    (h : r.Calls env repo languages limited names signal plan tasks team)
    (hreachable : Crew.Reachable plan l tasks outside c) {m : Member (Procedure ToolResult) ToolResult}
    (hm : m ∈ c.members) (hteam : m.task.team = team) (hgave : m.post.gaveBack = true) :
    ∃ name ∈ names, m.task = r.task repo languages limited team name ∧
      ∃ s, r.registry.get? name = some s := by
  obtain ⟨name, hname, htask, hknown⟩ := h.known hreachable hm hteam
  refine ⟨name, hname, htask, ?_⟩
  cases hpost : m.post with
  | done held x =>
    rw [hpost] at hknown hgave
    cases held with
    | false => cases hgave
    | true => exact hknown.1 rfl
  | _ =>
    rw [hpost] at hgave
    cases hgave

/-! ### Scanners that have not been started -/

/-- Whether a scanner that comes to `skipped` when it is passed over has not been started and is not
going to be. -/
def Barred (skipped : ToolResult) : Post (Procedure ToolResult) ToolResult → Prop
  | .waiting => True
  | .asking refused _ => refused = skipped
  | .turnedAway refused => refused = skipped
  | .done held x => held = false ∧ x = skipped
  | _ => False

/-- **A scanner that a watchful team has not started when the signal fires is never started.** -/
theorem Calls.barred (h : r.Calls env repo languages limited names signal plan tasks team)
    (hsequential : r.isSequential names = true) (hreachable : Crew.Reachable plan l tasks outside c)
    (hfired : (c.signal plan team).isFired = true) {i : Nat}
    {m : Member (Procedure ToolResult) ToolResult} (hm : c.members[i]? = some m)
    (hteam : m.task.team = team) (hwaits : m.post.isWaiting = true ∨ m.post.leaves? = some false)
    {c' : Crew σ (Procedure ToolResult) ToolResult} (hrun : ReflTransGen (Crew.Step plan) c c') :
    ∃ m', c'.members[i]? = some m' ∧ m'.task = m.task ∧ Barred m.task.skipped m'.post := by
  have hmem := List.mem_of_getElem? hm
  have hbarred : Barred m.task.skipped m.post := by
    cases hpost : m.post with
    | waiting => trivial
    | asking refused p =>
      obtain ⟨name, -, htask, -⟩ := h.known hreachable hmem hteam
      have hopening := hreachable.opening_of_asking hmem hpost
      rw [htask] at hopening ⊢
      exact refused_eq hopening
    | _ => simp [hpost, Post.isWaiting, Post.leaves?] at hwaits
  suffices hkeeps : ∀ d, ReflTransGen (Crew.Step plan) c d → ∀ v p outside, d.members[i]? = some v →
      Crew.Moved plan d v p outside → v.task = m.task ∧ Barred m.task.skipped v.post →
        v.task = m.task ∧ Barred m.task.skipped p by
    obtain ⟨m', hm', -, htask, hbarred'⟩ := hreachable.sound.member_run hrun hkeeps hm ⟨rfl, hbarred⟩
    exact ⟨m', hm', htask, hbarred'⟩
  rintro d hd v p outside - hmoved ⟨htask, hb⟩
  refine ⟨htask, ?_⟩
  -- the signal has fired for good, so the team passes over whatever it has not taken up
  have hpasses : Crew.PassesOver plan d v.task.team := by
    rw [htask, hteam]
    refine ⟨?_, Crew.signal_run hd hreachable.sound hfired⟩
    rw [h.threads]
    exact hsequential
  cases hmoved with
  | passOver _ _ => exact ⟨rfl, congrArg Task.skipped htask⟩
  | settle _ hgoes _ => exact absurd hpasses hgoes
  | begin _ hgoes _ => exact absurd hpasses hgoes
  | ask _ hgoes _ => exact absurd hpasses hgoes
  | stay hpost => rw [hpost] at hb; exact hb
  | grant _ hquiet => exact absurd hpasses.2 (by simp [hquiet])
  | refuse hpost _ => rw [hpost] at hb; exact hb
  | getThrough hpost => rw [hpost] at hb; exact hb.elim
  | giveUp hpost => rw [hpost] at hb; exact ⟨rfl, hb⟩
  | work hpost _ => rw [hpost] at hb; exact hb.elim
  | complete hpost _ => rw [hpost] at hb; exact hb.elim
  | giveBack hpost => rw [hpost] at hb; exact hb.elim

end Runner

end RepoAudit
