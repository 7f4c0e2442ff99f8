import Mathlib.Logic.Function.Basic
import RepoAudit.Proofs.Crew.Moves

/-!
# Answers that nobody else has a part in

Several askers and one place where scanners run. If nobody's answers depend on what the others have
asked, then what somebody comes to is determined by its own requests, in whatever order the requests
of all of them are made.

* `Environment.Asked` — what may lie outside after requests of several askers, and who asked what;
* `Environment.AnswersByHistory` — everybody is answered by what they have asked themselves;
* `Environment.undisturbed_of_stateless`, `Environment.answersByHistory_filing` — so it is where an
  answer depends on the request alone, and where programs write their reports to files of their own;
* `Procedure.comesTo` — what a procedure comes to then;
* `Procedure.perform_of_history` — **so it does, whatever the others have asked before**.

Programs that write their reports to one file do not answer by history: of two that run at once, one
may remove the report before the other has read it.
-/

namespace RepoAudit

open Relation

variable {σ α β : Type}

/-! ### Environments that answer everybody by what they have asked -/

namespace Environment

/-- What may lie outside after requests of several askers, each of whom asks only what it may, with what
each of them has asked. -/
inductive Asked (env : Environment σ) (may : Nat → Request → Prop) (start : σ) :
    (Nat → List Request) → σ → Prop
  | nothing : Asked env may start (fun _ => []) start
  | ask {asked : Nat → List Request} {outside : σ} (h : Asked env may start asked outside)
      {who : Nat} {q : Request} (hmay : may who q) (signal : Signal) :
      Asked env may start (Function.update asked who (asked who ++ [q]))
        (env.answer q signal outside).2

/-- Everybody is answered by what they have asked themselves, whatever the others have asked meanwhile,
unless a signal fires. -/
structure AnswersByHistory (env : Environment σ) (may : Nat → Request → Prop) (start : σ)
    (answer : List Request → (q : Request) → q.Answer) : Prop where
  answers : ∀ {asked outside}, env.Asked may start asked outside → ∀ {who q}, may who q →
    ∀ signal, signal.isFired = false →
      (env.answer q signal outside).1 = (answer (asked who) q, signal)

end Environment

variable {env : Environment σ} {may : Nat → Request → Prop} {start : σ}
  {answer : List Request → (q : Request) → q.Answer} {asked : Nat → List Request} {outside : σ}

/-- A procedure makes only certain requests, whatever they are answered. -/
def Procedure.AsksOnly (allowed : Request → Prop) : Procedure α → Prop
  | done _ => True
  | ask q next => allowed q ∧ ∀ x, (next x).AsksOnly allowed

theorem Procedure.AsksOnly.advance {allowed : Request → Prop} {p : Procedure α}
    (h : p.AsksOnly allowed) (env : Environment σ) (signal : Signal) (outside : σ) :
    (p.advance env signal outside).1.1.AsksOnly allowed := by
  cases p with
  | done x => exact h
  | ask q next => exact h.2 _

/-- The work of a task makes only certain requests. -/
def Opening.AsksOnly (allowed : Request → Prop) : Opening (Procedure α) α → Prop
  | .settled _ => True
  | .free p | .held _ p => p.AsksOnly allowed

theorem Procedure.asksOnly_true (p : Procedure α) : p.AsksOnly fun _ => True := by
  induction p with
  | done x => trivial
  | ask q next ih => exact ⟨trivial, ih⟩

/-- Whoever works on one of some tasks is answered by what it has asked itself. -/
def Environment.Undisturbed (env : Environment σ) (tasks : List (Task (Procedure α) α)) (start : σ)
    (answer : List Request → (q : Request) → q.Answer) : Prop :=
  ∃ may, env.AnswersByHistory may start answer ∧
    ∀ (i : Nat) (task : Task _ _), tasks[i]? = some task → task.opening.AsksOnly (may i)

/-- **Where an answer depends on the request alone nobody is disturbed**, whatever the tasks are. -/
theorem Environment.undisturbed_of_stateless {answer : (q : Request) → q.Answer}
    (h : ∀ q signal outside, signal.isFired = false →
      (env.answer q signal outside).1 = (answer q, signal)) (tasks : List (Task (Procedure α) α))
    (start : σ) : env.Undisturbed tasks start fun _ => answer := by
  refine ⟨fun _ _ => True, ⟨fun {_ _} _ {_ q} _ signal hquiet => h q signal _ hquiet⟩, ?_⟩
  intro i task _
  cases hopening : task.opening with
  | settled x => trivial
  | free p => exact p.asksOnly_true
  | held refused p => exact p.asksOnly_true

/-- What a procedure comes to when it is answered by what it has asked. -/
def Procedure.comesTo (answer : List Request → (q : Request) → q.Answer) :
    List Request → Procedure α → α
  | _, done x => x
  | history, ask q next => (next (answer history q)).comesTo answer (history ++ [q])

/-- What a task comes to that nobody keeps from being worked on. -/
def Opening.comesTo (answer : List Request → (q : Request) → q.Answer) :
    Opening (Procedure α) α → α
  | .settled x => x
  | .free p | .held _ p => p.comesTo answer []

/-- Somebody who asks is answered by what it has asked, and nobody else is concerned. -/
theorem Procedure.perform_of_history (henv : env.AnswersByHistory may start answer) {who : Nat}
    {signal : Signal} (hquiet : signal.isFired = false) {p : Procedure α}
    (hasks : p.AsksOnly (may who)) (hasked : env.Asked may start asked outside) :
    ∃ asked', env.Asked may start asked' (p.perform env signal outside).2 ∧
      (∀ j, j ≠ who → asked' j = asked j) ∧
      (p.perform env signal outside).1 = (p.comesTo answer (asked who), signal) := by
  induction p generalizing asked outside with
  | done x => exact ⟨asked, hasked, fun _ _ => rfl, rfl⟩
  | ask q next ih =>
    have hanswer := henv.answers hasked hasks.1 signal hquiet
    obtain ⟨asked', hasked', hothers, hresult⟩ :=
      ih (answer (asked who) q) (hasks.2 _) (hasked.ask hasks.1 signal)
    rw [Function.update_self] at hresult
    simp only [perform, hanswer]
    refine ⟨asked', hasked', fun j hj => ?_, hresult⟩
    rw [hothers j hj, Function.update_of_ne hj]

/-! ### Report files -/

namespace Environment

/-- Files with reports written to them, one after the other. -/
def written : List (String × String) → (String → Option String) → String → Option String
  | [], files => files
  | report :: reports, files => written reports (Function.update files report.1 (some report.2))

/-- Programs that print something and write report files. A file that is not there reads as empty. -/
def filing (printed : Invocation → Except Execution.Failure Execution.Finished)
    (reports : Invocation → List (String × String)) : Environment (String → Option String) where
  run inv signal files :=
    ((printed inv, signal), written (reports inv) files)
  readBack path files := (.ok ((files path).getD ""), files)
  discard path files := (.ok (), Function.update files path none)

/-- The files that a request has to do with. -/
def touched (reports : Invocation → List (String × String)) : Request → List String
  | .run inv => (reports inv).map Prod.fst
  | .readBack path | .discard path => [path]

variable {printed : Invocation → Except Execution.Failure Execution.Finished}
  {reports : Invocation → List (String × String)} {q : Request} {path : String}
  {files files' : String → Option String}

theorem written_of_notMem {texts : List (String × String)} (h : path ∉ texts.map Prod.fst) :
    written texts files path = files path := by
  induction texts generalizing files with
  | nil => rfl
  | cons report texts ih =>
    rw [List.map_cons, List.mem_cons, not_or] at h
    rw [written, ih h.2, Function.update_of_ne h.1]

theorem written_congr {texts : List (String × String)} (h : files path = files' path) :
    written texts files path = written texts files' path := by
  induction texts generalizing files files' with
  | nil => exact h
  | cons report texts ih =>
    refine ih ?_
    by_cases hpath : path = report.1
    · rw [hpath, Function.update_self, Function.update_self]
    · rw [Function.update_of_ne hpath, Function.update_of_ne hpath, h]

/-- A request leaves the files alone that it has nothing to do with. -/
theorem filing_of_notMem {signal : Signal} (h : path ∉ touched reports q) :
    ((filing printed reports).answer q signal files).2 path = files path := by
  cases q with
  | run inv => exact written_of_notMem h
  | readBack path' => rfl
  | discard path' => exact Function.update_of_ne (fun heq => h (List.mem_singleton.mpr heq)) ..

/-- What a request makes of a file depends on that file alone. -/
theorem filing_congr {signal signal' : Signal} (h : files path = files' path) :
    ((filing printed reports).answer q signal files).2 path =
      ((filing printed reports).answer q signal' files').2 path := by
  cases q with
  | run inv => exact written_congr h
  | readBack path' => exact h
  | discard path' =>
    show Function.update files path' none path = Function.update files' path' none path
    by_cases hpath : path = path'
    · rw [hpath, Function.update_self, Function.update_self]
    · rw [Function.update_of_ne hpath, Function.update_of_ne hpath, h]

/-- The files after requests that one asker has made alone. -/
def alone (printed : Invocation → Except Execution.Failure Execution.Finished)
    (reports : Invocation → List (String × String)) (start : String → Option String)
    (history : List Request) : String → Option String :=
  history.foldl (fun files q => ((filing printed reports).answer q .absent files).2) start

/-- **Programs whose reports lie in different files do not disturb each other.** -/
theorem answersByHistory_filing {may : Nat → Request → Prop}
    (hseparate : ∀ i j, i ≠ j → ∀ q q', may i q → may j q' →
      ∀ path ∈ touched reports q, path ∉ touched reports q') (start : String → Option String) :
    (filing printed reports).AnswersByHistory may start fun history q =>
      ((filing printed reports).answer q .absent (alone printed reports start history)).1.1 := by
  -- everybody finds its own files as if it had been alone
  have hown : ∀ {asked files}, (filing printed reports).Asked may start asked files →
      ∀ who q, may who q → ∀ path ∈ touched reports q,
        files path = alone printed reports start (asked who) path := by
    intro asked files hasked
    induction hasked with
    | nothing => exact fun _ _ _ _ _ => rfl
    | @ask asked files _ who q hmay signal ih =>
      intro who' q' hmay' path hpath
      by_cases hwho : who' = who
      · subst hwho
        rw [Function.update_self, alone, List.foldl_append]
        exact filing_congr (ih who' q' hmay' path hpath)
      · rw [Function.update_of_ne hwho, ← ih who' q' hmay' path hpath]
        exact filing_of_notMem (hseparate who' who hwho q' q hmay' hmay path hpath)
  refine ⟨fun {asked files} hasked {who q} hmay signal _ => ?_⟩
  cases q with
  | run inv => rfl
  | readBack path =>
    have hfile := hown hasked who _ hmay path (List.mem_singleton_self path)
    simp only [answer, filing, hfile]
  | discard path => rfl

end Environment

end RepoAudit
