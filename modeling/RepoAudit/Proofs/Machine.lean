import RepoAudit.Machine
import RepoAudit.Proofs.Execution
import RepoAudit.Proofs.Files.Refusal

/-!
# What a run changes

A run changes the files only through the program that it starts.

* `Launch.Passable` — a request that can be passed on to a program as it is;
* `Machine.files_run` — **the files after a run are those before it, or what the program of the
  request has made of them**;
* `Machine.run_ne_crashed` — a run of a passable request within a countable limit is no defect.
-/

namespace RepoAudit

/-- A request that can be passed on to a program as it is: no name of a variable holds an equals sign,
and the system takes every text in it. -/
structure Launch.Passable (l : Launch) : Prop where
  vars : ∀ v ∈ l.vars, '=' ∉ v.1.toList
  texts : ∀ x ∈ l.program :: l.args ++ l.vars.flatMap fun v => [v.1, v.2], Path.IsPassable x
  directory : ∀ d ∈ l.directory, Path.IsPassable d

theorem Refusal.of?_eq_none {p : String} (h : Path.IsPassable p) : Refusal.of? p = none := if_pos h

namespace Launch

theorem variableDefect?_eq_none {v : String × String} (hname : '=' ∉ v.1.toList)
    (hpass : Path.IsPassable v.1) (hvalue : Path.IsPassable v.2) : variableDefect? v = none := by
  rw [variableDefect?, Path.encodingError?_eq_none hpass, Option.none_or, if_neg hname,
    Path.encodingError?_eq_none hvalue]

theorem Passable.defect?_eq_none {l : Launch} (h : l.Passable) : l.defect? = none := by
  have hvars : l.vars.findSome? variableDefect? = none := by
    refine List.findSome?_eq_none_iff.mpr fun v hv => ?_
    have htext : ∀ x ∈ [v.1, v.2], Path.IsPassable x := fun x hx =>
      h.texts x (List.mem_append_right _ (List.mem_flatMap.mpr ⟨v, hv, hx⟩))
    exact variableDefect?_eq_none (h.vars v hv) (htext _ (by simp)) (htext _ (by simp))
  have htexts : ∀ texts : List String, (∀ x ∈ texts, Path.IsPassable x) →
      (texts.findSome? fun x => (Refusal.of? x).map Refusal.message) = none := fun texts hall =>
    List.findSome?_eq_none_iff.mpr fun x hx => by rw [Refusal.of?_eq_none (hall x hx), Option.map_none]
  rw [defect?, hvars, htexts _ fun x hx => h.texts x (List.mem_append_left _ hx),
    htexts _ fun x hx => h.texts x (List.mem_append_right _ hx)]
  rfl

end Launch

namespace Machine

open Execution

variable {m : Machine} {l : Launch} {limit : Duration}

/-- The place to start in is found, or the system reports why not. -/
theorem startingPlace_ne_crashed (h : l.Passable) (message : String) :
    m.startingPlace l ≠ .error (.crashed message) := by
  rw [startingPlace]
  cases hdirectory : l.directory with
  | none => simp
  | some d =>
    dsimp only
    cases hopen : m.files.locate m.directory true d with
    | ok loc =>
      dsimp only
      split <;> simp
    | error e =>
      cases e with
      | refused r =>
        exact absurd (h.directory d hdirectory) (FileTree.locate_eq_refused_iff.mp hopen).1
      | _ => simp

/-- A request starts in the directory that it asks for. -/
theorem startingPlace_of_directory {d : String} {place : Location} (hd : l.directory = some d)
    (hopen : m.files.locate m.directory true d = .ok place)
    (hdirectory : m.files.entryAt? place = some .directory) : m.startingPlace l = .ok place := by
  rw [startingPlace, hd]
  dsimp only
  rw [hopen]
  exact if_pos hdirectory

theorem programOf_ne_crashed (place : Location) (message : String) :
    m.programOf place l ≠ .error (.crashed message) := by
  rw [programOf]
  split
  · simp
  split
  · simp
  split
  · split <;> simp
  · simp

/-- Only programs that are known by name or path are run. -/
theorem lookup_of_programOf {place : Location} {p : Program} (h : m.programOf place l = .ok p) :
    m.programs.lookup l.program = some p := by
  rw [programOf] at h
  split at h
  · next hknown => rw [hknown, Except.ok.inj h]
  split at h
  · cases h
  split at h
  · split at h <;> cases h
  · cases h

/-- A passable request starts its program once its place and its program are found. -/
theorem start_of_passable (h : l.Passable) :
    m.start l = match m.startingPlace l with
      | .error e => (.error e, m)
      | .ok place => match m.programOf place l with
        | .error e => (.error e, m)
        | .ok p => (.ok (p l place m.files).1,
            { m with files := (p l place m.files).2, journal := m.journal ++ [(l, place)] }) := by
  rw [start]
  split
  · next hdefect => exact absurd (h.defect?_eq_none.symm.trans hdefect) (by simp)
  · rfl

/-- A program that is known is started. -/
theorem start_eq {p : Program} {place : Location} (h : l.Passable)
    (hplace : m.startingPlace l = .ok place) (hp : m.programs.lookup l.program = some p) :
    m.start l = (.ok (p l place m.files).1,
      { m with files := (p l place m.files).2, journal := m.journal ++ [(l, place)] }) := by
  have hprogram : m.programOf place l = .ok p := by
    rw [programOf, hp]
  rw [start_of_passable h, hplace]
  dsimp only
  rw [hprogram]

/-- A passable request starts its program, or the system reports why not. -/
theorem start_ne_crashed (h : l.Passable) (message : String) :
    (m.start l).1 ≠ .error (.crashed message) := by
  rw [start_of_passable h]
  cases hplace : m.startingPlace l with
  | error e =>
    intro hcrashed
    exact startingPlace_ne_crashed h message (hplace.trans (congrArg _ (Except.error.inj hcrashed)))
  | ok place =>
    dsimp only
    cases hprogram : m.programOf place l with
    | error e =>
      intro hcrashed
      exact programOf_ne_crashed place message
        (hprogram.trans (congrArg _ (Except.error.inj hcrashed)))
    | ok p => simp

/-- The files after a start are those before it, or what the program has made of them. -/
theorem files_start (m : Machine) (l : Launch) :
    (m.start l).2.files = m.files ∨ ∃ p place, m.programs.lookup l.program = some p ∧
      m.startingPlace l = .ok place ∧ (m.start l).2.files = (p l place m.files).2 := by
  rw [start]
  split
  · exact .inl rfl
  cases hplace : m.startingPlace l with
  | error e => exact .inl rfl
  | ok place =>
    dsimp only
    cases hprogram : m.programOf place l with
    | error e => exact .inl rfl
    | ok p => exact .inr ⟨p, place, lookup_of_programOf hprogram, rfl, rfl⟩

/-- A machine is left in its directory, and calls nest on it as deep as before. -/
theorem directory_start (m : Machine) (l : Launch) :
    (m.start l).2.directory = m.directory ∧ (m.start l).2.nesting = m.nesting := by
  rw [start]
  split
  · exact ⟨rfl, rfl⟩
  cases m.startingPlace l with
  | error e => exact ⟨rfl, rfl⟩
  | ok place =>
    dsimp only
    cases m.programOf place l with
    | error e => exact ⟨rfl, rfl⟩
    | ok p => exact ⟨rfl, rfl⟩

theorem directory_run (m : Machine) (l : Launch) (limit : Duration) (fires : Option Decimal) :
    (m.run l limit fires).2.directory = m.directory ∧
      (m.run l limit fires).2.nesting = m.nesting := by
  rw [run]
  split
  · exact ⟨rfl, rfl⟩
  · exact directory_start m l

/-- **The files after a run are those before it, or what the program has made of them.** -/
theorem files_run (m : Machine) (l : Launch) (limit : Duration) (fires : Option Decimal) :
    (m.run l limit fires).2.files = m.files ∨ ∃ p place, m.programs.lookup l.program = some p ∧
      m.startingPlace l = .ok place ∧ (m.run l limit fires).2.files = (p l place m.files).2 := by
  rw [run]
  split
  · exact .inl rfl
  · exact files_start m l

/-- A run of a passable request within a countable limit ends with its program, at its deadline or
with its signal, or the system reports why there was none. -/
theorem run_ne_crashed (h : l.Passable) (hlimit : limit.isCountable = true)
    (fires : Option Decimal) (message : String) :
    (m.run l limit fires).1 ≠ .error (.crashed message) := by
  rw [run, hlimit, Bool.not_true, Bool.or_false]
  split
  · next hfired =>
    have hbefore : runBehaviour l.program limit fires (.error (.crashed "")) =
        .error (.cancelled l.program false "") := by
      simp [runBehaviour, execute, hfired]
    rw [hbefore]
    simp
  · exact runBehaviour_ne_crashed hlimit (start_ne_crashed h) message

end Machine

end RepoAudit
