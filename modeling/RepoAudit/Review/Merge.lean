import RepoAudit.Finding
import RepoAudit.Path
import RepoAudit.Review.Advice

/-!
# Advice attached to findings

* `Review.Tables` — advice by path and line, by the place of the file and line, by file name and
  line, and by the place of the file alone.
* `Review.adviceFor?` — the advice for a finding: the first table that has an entry decides.
* `Review.attach` — the findings with their advice, and how many got one.
-/

namespace RepoAudit.Review

/-- A table whose entries stay once they are set. -/
abbrev Table (κ : Type) := List (κ × Advice)

/-- Sets an entry unless there is one. -/
def Table.setDefault {κ : Type} [DecidableEq κ] (t : Table κ) (k : κ) (a : Advice) : Table κ :=
  if (t.lookup k).isSome then t else t ++ [(k, a)]

/-- Sets an entry for a file unless there is one; advice without a line also replaces advice with
one. -/
def Table.preferWhole (t : Table String) (k : String) (a : Advice) : Table String :=
  match t.lookup k with
  | none => t ++ [(k, a)]
  | some b =>
    if a.lineOrZero = 0 ∧ b.lineOrZero ≠ 0 then
      t.map fun (k', x) => if k' = k then (k', a) else (k', x)
    else t

/-- The tables in which advice is looked up. -/
structure Tables where
  exact : Table (String × Int) := []
  byPlace : Table (String × Int) := []
  byName : Table (String × Int) := []
  byFile : Table String := []

/-- Enters a piece of advice; one that has nothing to say is passed over. -/
def Tables.add (repo : String) (t : Tables) (a : Advice) : Tables :=
  if !a.isUseful then t
  else
    let line := a.lineOrZero
    let place := Path.fromDirectory repo a.filePath
    { exact := t.exact.setDefault (a.filePath, line) a
      byPlace := t.byPlace.setDefault (place, line) a
      byName := t.byName.setDefault (Path.baseName a.filePath, line) a
      byFile := t.byFile.preferWhole place a }

/-- The tables of all advice. -/
def Tables.ofList (repo : String) (advice : List Advice) : Tables :=
  advice.foldl (Tables.add repo) {}

/-- The advice for a finding. -/
def adviceFor? (repo : String) (t : Tables) (f : Finding) : Option Advice :=
  let line := f.lineOrZero
  let place := Path.fromDirectory repo f.filePath
  (((t.exact.lookup (f.filePath, line)).or (t.byPlace.lookup (place, line))).or
    (t.byName.lookup (Path.baseName f.filePath, line))).or (t.byFile.lookup place)

/-- A text, or none when it is empty. -/
def textOrNone (s : String) : Option String := if s = "" then none else some s

/-- A finding with advice attached. -/
def advised (f : Finding) (a : Advice) : Finding :=
  { f with remediation := textOrNone a.remediation, codeExample := textOrNone a.codeExample }

/-- A finding after the review, and whether advice was found for it; only a reviewed one can get
any. -/
def attachOne (repo : String) (reviewed : List String) (t : Tables) (f : Finding) :
    Finding × Bool :=
  if f.id ∈ reviewed then
    match adviceFor? repo t f with
    | some a => (advised f a, true)
    | none => (f, false)
  else (f, false)

/-- All findings after the review, and how many got advice. -/
def attach (repo : String) (findings reviewed : List Finding) (advice : List Advice) :
    List Finding × Nat :=
  let t := Tables.ofList repo advice
  let out := findings.map (attachOne repo (reviewed.map Finding.id) t)
  (out.map Prod.fst, (out.filter Prod.snd).length)

end RepoAudit.Review
