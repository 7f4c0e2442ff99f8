import RepoAudit.Proofs.Files.Changes
import RepoAudit.Proofs.Files.Following
import RepoAudit.Proofs.Machine
import RepoAudit.Proofs.Text.Utf8
import RepoAudit.Scanner.Secrets

/-!
# A report in the repository

One scanner leaves its report in a file, and that file lies in the repository that it looks at. It is
read back and removed after each run, whatever the exit code says, but it is not removed before. A
repository that comes with such a file has it read as a report when the scanner leaves none.

* `Place.textAt` — what a place shows of a file; reading and removing never fail there;
* `Gitleaks.Ran` — how the program of a run has ended, and the report that it has left, if any;
  `Gitleaks.ran_here` — what that means of a program and the files;
* `Gitleaks.Ran.outcome_eq` — a run comes to the report that was left, else to the file that was there;
* `Gitleaks.own_report_iff` — **two runs with different files there come to the same, and their findings
  are those of the report that was left, exactly when one was left, or the program did not end by
  itself, or the files say the same, or nothing**;
* `Gitleaks.planted_report_read` — a program that leaves nothing, and a file that is read for it.
-/

namespace RepoAudit

/-- A procedure whose outcome is seen differently is performed as before. -/
theorem Procedure.perform_map {α β σ : Type} (env : Environment σ) (f : α → β) (q : Procedure α)
    (signal : Signal) (outside : σ) :
    ((q.map f).perform env signal outside).1.1 = f (q.perform env signal outside).1.1 := by
  induction q generalizing signal outside with
  | done x => rfl
  | ask r next ih => exact ih _ _ _

namespace Place

/-- What a place shows of a file: its text, which is empty when it cannot be read. -/
def textAt (p : Place) (path : String) (m : Machine) : String :=
  (p.environment.readBack path m).1.toOption.getD ""

theorem readBack_eq (p : Place) (path : String) (m : Machine) :
    (p.environment.readBack path m).1 = .ok (p.textAt path m) := by
  cases p with
  | here => rfl
  | container name =>
    rw [textAt]
    simp only [environment, Environment.container]
    split
    · rfl
    · rfl

theorem discard_eq (p : Place) (path : String) (m : Machine) :
    (p.environment.discard path m).1 = .ok () := by
  cases p with
  | here => rfl
  | container name => rfl

/-- What is collected from a file is what the place shows of it. -/
theorem collected_eq (p : Place) (path : String) (signal : Signal) (m : Machine) :
    ((Procedure.ofFile path).perform p.environment signal m).1.1 = .ok (p.textAt path m) := by
  have hread := p.readBack_eq path m
  rw [Procedure.ofFile, Procedure.perform]
  dsimp only [Environment.answer]
  rw [hread]
  dsimp only [Procedure.perform, Environment.answer]
  rw [discard_eq]
  rfl

end Place

namespace Scanner

/-- A run of a scanner comes to what its program has come to, or to what is collected then. -/
theorem outcome_run {σ : Type} (s : Scanner) (env : Environment σ) {repo : String}
    {languages args : List String} (limit : Duration) (signal : Signal) (outside : σ)
    (hargs : s.args repo languages = .ok args) :
    (s.run env repo languages limit signal outside).1.1 =
      let ran := env.run ⟨s.command, args, repo, limit⟩ signal outside
      match ran.1.1 with
      | .error e => s.failed e
      | .ok f => s.reported repo ((s.collect repo f.stdout).perform env ran.1.2 ran.2).1.1 := by
  rw [run, procedure, hargs]
  dsimp only [Procedure.perform, Environment.answer]
  cases (env.run ⟨s.command, args, repo, limit⟩ signal outside).1.1 with
  | error e => rfl
  | ok f => exact Procedure.perform_map env _ _ _ _

end Scanner

namespace Scanner.Gitleaks

variable {p : Place} {repo : String} {languages : List String} {limit : Duration} {signal : Signal}
  {m m' : Machine} {reply : Except Execution.Failure Execution.Finished} {report : Option String}

/-- How the program is called. -/
def invocation (repo : String) (limit : Duration) : Invocation :=
  ⟨"gitleaks", ["detect", "--source", repo, "--report-format", "json", "--report-path",
    reportPath repo, "--no-git"], repo, limit⟩

/-- The run of the program. -/
def ran (p : Place) (repo : String) (limit : Duration) (signal : Signal) (m : Machine) :
    RunReply × Machine :=
  p.environment.run (invocation repo limit) signal m

/-- What a run of the scanner comes to. -/
def outcome (p : Place) (repo : String) (languages : List String) (limit : Duration)
    (signal : Signal) (m : Machine) : Except String ToolResult :=
  (gitleaks.run p.environment repo languages limit signal m).1.1

/-- The result with the findings of a text. -/
def resultOf (repo text : String) : ToolResult :=
  { tool := "gitleaks", findings := (findings text).map (localize repo) }

/-- The program has ended with `reply` and has left the text `report` where it was told to, or nothing,
so that there is what was there before. -/
structure Ran (p : Place) (repo : String) (limit : Duration) (signal : Signal) (m : Machine)
    (reply : Except Execution.Failure Execution.Finished) (report : Option String) : Prop where
  reply : (ran p repo limit signal m).1.1 = reply
  report : p.textAt (reportPath repo) (ran p repo limit signal m).2 =
    report.getD (p.textAt (reportPath repo) m)

/-- What a run comes to whose program has ended with `reply`, when the file then holds `text`. -/
def comesTo (repo text : String) :
    Except Execution.Failure Execution.Finished → Except String ToolResult
  | .error e => gitleaks.failed e
  | .ok _ => .ok (resultOf repo text)

/-- Once the program has ended, a run reads what is there. -/
theorem outcome_eq (p : Place) (repo : String) (languages : List String) (limit : Duration)
    (signal : Signal) (m : Machine) :
    outcome p repo languages limit signal m =
      comesTo repo (p.textAt (reportPath repo) (ran p repo limit signal m).2)
        (ran p repo limit signal m).1.1 := by
  refine (outcome_run gitleaks p.environment limit signal m rfl).trans ?_
  show (match (ran p repo limit signal m).1.1 with
    | .error e => gitleaks.failed e
    | .ok f => gitleaks.reported repo (((Procedure.ofFile (reportPath repo)).perform p.environment
        (ran p repo limit signal m).1.2 (ran p repo limit signal m).2).1.1)) = _
  rw [Place.collected_eq]
  cases (ran p repo limit signal m).1.1 with
  | error e => rfl
  | ok f => rfl

/-- A run comes to the report that was left, else to the file that was there before. -/
theorem Ran.outcome_eq (h : Ran p repo limit signal m reply report) (languages : List String) :
    outcome p repo languages limit signal m =
      comesTo repo (report.getD (p.textAt (reportPath repo) m)) reply := by
  rw [Gitleaks.outcome_eq, h.reply, h.report]

/-- Without an end there are no findings. -/
theorem findings_of_failed {e : Execution.Failure} {result : ToolResult}
    (h : gitleaks.failed e = .ok result) : result.findings = [] := by
  cases e with
  | crashed => cases h
  | _ => exact (Except.ok.inj h) ▸ rfl

theorem resultOf_eq_iff {text text' : String} :
    resultOf repo text = resultOf repo text' ↔
      (findings text).map (localize repo) = (findings text').map (localize repo) := by
  simp [resultOf]

/-- **When only the scanner's own report is read.** Let the program end the same in two runs, with the
same report left where it was told to leave it, or none. The two runs come to the same, whatever file
was there before, and every finding is one of a report that was left, if one was left, or if the
program did not end by itself. Otherwise the files must give the same findings, and give none. -/
theorem own_report_iff (hm : Ran p repo limit signal m reply report)
    (hm' : Ran p repo limit signal m' reply report) (languages : List String) :
    (outcome p repo languages limit signal m = outcome p repo languages limit signal m' ↔
      report.isSome = true ∨ (∀ f, reply ≠ .ok f) ∨
        (findings (p.textAt (reportPath repo) m)).map (localize repo) =
          (findings (p.textAt (reportPath repo) m')).map (localize repo)) ∧
      ((∀ result, outcome p repo languages limit signal m = .ok result → ∀ f ∈ result.findings,
          ∃ text ∈ report, f ∈ (findings text).map (localize repo)) ↔
        report.isSome = true ∨ (∀ f, reply ≠ .ok f) ∨
          findings (p.textAt (reportPath repo) m) = []) := by
  rw [hm.outcome_eq, hm'.outcome_eq]
  cases reply with
  | error e =>
    have hnone : ∀ f : Execution.Finished, Except.error e ≠ .ok f := by simp
    refine ⟨iff_of_true rfl (.inr (.inl hnone)), iff_of_true ?_ (.inr (.inl hnone))⟩
    intro result hresult f hf
    rw [findings_of_failed hresult] at hf
    cases hf
  | ok finished =>
    cases report with
    | some text =>
      refine ⟨iff_of_true rfl (.inl rfl), iff_of_true ?_ (.inl rfl)⟩
      intro result hresult f hf
      obtain rfl := Except.ok.inj hresult
      exact ⟨text, rfl, hf⟩
    | none =>
      -- what was there before is read, and nothing in it is of this run
      refine ⟨by simp [comesTo, resultOf_eq_iff], ?_⟩
      simp [comesTo, resultOf, List.eq_nil_iff_forall_not_mem]

/-! ### A program on the machine itself -/

/-- The request that starts the program. -/
def launch (repo : String) : Launch := ⟨"gitleaks", (invocation repo (.whole 0)).args, some repo, []⟩

/-- What a run is, for a program that is known: it ends as it behaves, and it leaves what can be read
when it has changed the files. -/
theorem ran_here {program : Program} {place : Location} {behaviour : Execution.Behaviour}
    {files : FileTree} (hpassable : (launch repo).Passable) (hlimit : limit.isCountable = true)
    (hplace : m.startingPlace (launch repo) = .ok place)
    (hprogram : m.programs.lookup "gitleaks" = some program)
    (hruns : program (launch repo) place m.files = (behaviour, files))
    (hleaves : Environment.readText { m with files := files } (reportPath repo) =
      report.getD (Environment.readText m (reportPath repo))) :
    Ran .here repo limit .quiet m (Execution.runBehaviour "gitleaks" limit none (.ok behaviour))
      report := by
  have hstart := Machine.start_eq hpassable hplace hprogram
  rw [hruns] at hstart
  have hran : m.run (launch repo) limit none =
      (Execution.runBehaviour "gitleaks" limit none (.ok behaviour),
        { m with files := files, journal := m.journal ++ [(launch repo, place)] }) := by
    rw [Machine.run, hlimit, hstart]
    rfl
  constructor
  · show (m.run (launch repo) limit none).1 = _
    rw [hran]
  · show Environment.readText (m.run (launch repo) limit none).2 (reportPath repo) = _
    rw [hran]
    exact hleaves

/-- A program that leaves a report, or nothing. -/
def leaving : Option String → Program
  | none => fun _ _ t => ({ code := 1 }, t)
  | some text => fun _ place t => ({ code := 1 }, t.put (place ++ [reportName]) (.file (.ofText text)))

/-- The files of a repository with a file for reports, or without. -/
def filesWith : Option String → FileTree
  | none => FileTree.empty.put ["repo"] .directory
  | some text =>
    (FileTree.empty.put ["repo"] .directory).put ["repo", reportName] (.file (.ofText text))

/-- A machine with that repository and that program. -/
def bench (planted report : Option String) : Machine where
  files := filesWith planted
  programs := [("gitleaks", leaving report)]

theorem entryAt?_filesWith (planted : Option String) :
    FileTree.entryAt? (filesWith planted) ["repo"] = some .directory ∧
      FileTree.entryAt? (filesWith planted) ["repo", reportName] =
        planted.map fun text => .file (.ofText text) := by
  cases planted with
  | none => exact ⟨rfl, rfl⟩
  | some text => exact ⟨rfl, rfl⟩

theorem locate_filesWith (planted : Option String) :
    (filesWith planted).locate [] true "/repo" = .ok ["repo"] ∧
      (filesWith planted).locate [] true (reportPath "/repo") =
        if planted.isSome then .ok ["repo", reportName] else .error .missing := by
  have hpath : reportPath "/repo" = "/repo/.gitleaks-report.json" := by decide
  have hparts : Path.parts "/repo" = ["", "repo"] ∧
      Path.parts "/repo/.gitleaks-report.json" = ["", "repo", reportName] := by decide
  have hpassable : Path.IsPassable "/repo" ∧ Path.IsPassable "/repo/.gitleaks-report.json" := by decide
  have hlength : (Text.nameBytes "/repo").length = 5 ∧
      (Text.nameBytes "/repo/.gitleaks-report.json").length = 27 ∧
      (Text.nameBytes "repo").length = 4 ∧ (Text.nameBytes reportName).length = 21 := by decide
  have habsolute : Path.isAbsolute "/repo" = true ∧
      Path.isAbsolute "/repo/.gitleaks-report.json" = true := by decide
  have hname : reportName ≠ "" ∧ reportName ≠ "." ∧ reportName ≠ ".." := by decide
  obtain ⟨hdirectory, hfile⟩ := entryAt?_filesWith planted
  cases planted with
  | none =>
    simp [hpath, FileTree.locate, hpassable, hparts, habsolute, hlength, hname, FileTree.locateFrom,
      FileTree.entryAt?_nil, hdirectory, hfile, FileTree.maxPathLength, FileTree.maxNameLength]
  | some text =>
    simp [hpath, FileTree.locate, hpassable, hparts, habsolute, hlength, hname, FileTree.locateFrom,
      FileTree.entryAt?_nil, hdirectory, hfile, FileTree.maxPathLength, FileTree.maxNameLength]

theorem startingPlace_bench (planted report : Option String) :
    (bench planted report).startingPlace (launch "/repo") = .ok ["repo"] :=
  Machine.startingPlace_of_directory rfl (locate_filesWith planted).1 (entryAt?_filesWith planted).1

/-- A file is read as it was written, but for its line ends. -/
theorem readText_filesWith (planted : Option String) {m : Machine}
    (hfiles : m.files = filesWith planted) (hdirectory : m.directory = []) :
    Environment.readText m (reportPath "/repo") = Text.unifyNewlines (planted.getD "") := by
  rw [Environment.readText, hfiles, hdirectory]
  cases planted with
  | none =>
    have hread : (filesWith none).read [] (reportPath "/repo") = .error .missing := by
      rw [FileTree.read, (locate_filesWith none).2]
      rfl
    rw [hread]
    rfl
  | some text =>
    have hread : (filesWith (some text)).read [] (reportPath "/repo") = .ok (.ofText text) :=
      FileTree.read_eq_ok_iff.mpr ⟨_, (locate_filesWith (some text)).2,
        (entryAt?_filesWith (some text)).2⟩
    rw [hread]
    dsimp only
    have hbytes : (Content.ofText text).toBytes = Text.Utf8.bytesOf text := List.take_length
    rw [hbytes, Text.Utf8.textOf, Text.Utf8.bytesOf, Text.Utf8.decode_encode, String.ofList_toList]
    rfl

/-- What the program of the bench leaves. -/
theorem ran_bench (planted report : Option String) :
    Ran .here "/repo" (.whole 300) .quiet (bench planted report)
      (.ok ⟨"gitleaks", 1, "", ""⟩) (report.map Text.unifyNewlines) := by
  have hpassable : (launch "/repo").Passable := ⟨by decide, by decide, by decide⟩
  have hlimit : (Duration.whole 300).isCountable = true := by decide +kernel
  have hreply : Execution.runBehaviour "gitleaks" (.whole 300) none (.ok { code := 1 }) =
      .ok ⟨"gitleaks", 1, "", ""⟩ := by
    simp only [Execution.runBehaviour, Execution.execute, hlimit, Except.map]
    rfl
  rw [← hreply]
  cases report with
  | none =>
    exact ran_here hpassable hlimit (startingPlace_bench _ _) rfl rfl rfl
  | some text =>
    have hfiles : (filesWith planted).put ["repo", reportName] (.file (.ofText text)) =
        filesWith (some text) := by
      cases planted with
      | none => rfl
      | some before => rfl
    exact ran_here hpassable hlimit (startingPlace_bench _ _) rfl rfl
      (readText_filesWith (some text) hfiles rfl)

/-- A report of one leak. -/
def oneLeak : String :=
  "[\x7b\"File\": \"a.js\", \"Description\": \"API key\"\x7d]"

/-- A program that leaves its report, in a repository with such a file and in one without. -/
theorem own_report_iff_left :
    (Ran .here "/repo" (.whole 300) .quiet (bench (some oneLeak) (some "[]"))
        (.ok ⟨"gitleaks", 1, "", ""⟩) (some "[]") ∧
      Ran .here "/repo" (.whole 300) .quiet (bench none (some "[]"))
        (.ok ⟨"gitleaks", 1, "", ""⟩) (some "[]")) ∧
      outcome .here "/repo" [] (.whole 300) .quiet (bench (some oneLeak) (some "[]")) =
        outcome .here "/repo" [] (.whole 300) .quiet (bench none (some "[]")) := by
  have hplanted := ran_bench (some oneLeak) (some "[]")
  have hclean := ran_bench none (some "[]")
  exact ⟨⟨hplanted, hclean⟩, (own_report_iff hplanted hclean []).1.mpr (.inl rfl)⟩

/-- A program that leaves nothing. The two repositories differ in nothing but the file for reports, and
what that file says is reported. -/
theorem planted_report_read :
    (bench (some oneLeak) none).programs = (bench none none).programs ∧
      (∀ loc, loc ≠ ["repo", reportName] → (bench (some oneLeak) none).files.entryAt? loc =
        (bench none none).files.entryAt? loc) ∧
      (∀ planted, Ran .here "/repo" (.whole 300) .quiet (bench planted none)
        (.ok ⟨"gitleaks", 1, "", ""⟩) none) ∧
      outcome .here "/repo" [] (.whole 300) .quiet (bench none none) =
        .ok { tool := "gitleaks" } ∧
      outcome .here "/repo" [] (.whole 300) .quiet (bench (some oneLeak) none) =
        .ok { tool := "gitleaks", findings := [⟨"a.js", "API key", "high", none, none⟩] } := by
  have hran := fun planted => ran_bench planted none
  have hother : ∀ loc, loc ≠ ["repo", reportName] →
      FileTree.entryAt? (filesWith (some oneLeak)) loc = FileTree.entryAt? (filesWith none) loc :=
    fun loc hloc => FileTree.entryAt?_put_other _ _ hloc
  have hoffered : ∀ planted, outcome .here "/repo" [] (.whole 300) .quiet (bench planted none) =
      .ok (resultOf "/repo" (Text.unifyNewlines (planted.getD ""))) := by
    intro planted
    have hread : Environment.readText (bench planted none) (reportPath "/repo") = _ :=
      readText_filesWith planted rfl rfl
    rw [(hran planted).outcome_eq, ← hread]
    rfl
  have hnothing : resultOf "/repo" (Text.unifyNewlines ((none : Option String).getD "")) =
      { tool := "gitleaks" } := by decide
  have hleak : resultOf "/repo" (Text.unifyNewlines ((some oneLeak).getD "")) =
      { tool := "gitleaks", findings := [⟨"a.js", "API key", "high", none, none⟩] } := by
    decide
  exact ⟨rfl, hother, hran, (hoffered none).trans (congrArg _ hnothing),
    (hoffered (some oneLeak)).trans (congrArg _ hleak)⟩

end Scanner.Gitleaks

end RepoAudit
