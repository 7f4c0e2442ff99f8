import Mathlib.Data.List.Nodup
import RepoAudit.Proofs.Store

/-!
# The tables column by column

A database holds texts, numbers and JSON values. What is written is taken apart into the columns of a
row and put together again when it is read. In between, the database puts the rows of a job in order:
it knows their severities as texts, and rows that its order does not tell apart come as it likes.

* `FindingColumns`, `JobColumns` — the rows of the two tables;
* `FindingColumns.finding?_of`, `JobColumns.job?_columns` — what was taken apart is put together
  again as it was;
* `Database.Selects` — the answers that a database may give to the query for the rows of a job;
* `Store.read?_database` — **whichever of these answers comes, what is put together from it is the
  job that the store gives**.
-/

namespace RepoAudit

/-! ### Names -/

@[simp] theorem Severity.ofName?_name (v : Severity) : Severity.ofName? v.name = some v := by
  cases v <;> decide

@[simp] theorem JobStatus.ofName?_name (a : JobStatus) : JobStatus.ofName? a.name = some a := by
  cases a <;> decide

/-- The place of a severity that is known by its name; other texts come last. -/
def Severity.orderOf (text : String) : Nat :=
  (Severity.ofName? text).elim Severity.all.length Severity.rank

@[simp] theorem Severity.orderOf_name (v : Severity) : Severity.orderOf v.name = v.rank := by
  rw [orderOf, ofName?_name, Option.elim_some]

/-! ### Findings -/

/-- A row of the table of findings. -/
structure FindingColumns where
  id : String
  job : String
  severity : String
  tool : String
  filePath : String
  line : Option Int
  description : String
  remediation : Option String
  codeExample : Option String
  rule : Option String
  position : Nat

namespace FindingColumns

/-- The columns of a finding of a job, at its position. -/
def of (job : String) (position : Nat) (f : Finding) : FindingColumns where
  id := f.id
  job := job
  severity := f.severity.name
  tool := f.tool
  filePath := f.filePath
  line := f.line
  description := f.description
  remediation := f.remediation
  codeExample := f.codeExample
  rule := f.rule
  position := position

/-- The finding of a row, if its severity is the name of one. -/
def finding? (c : FindingColumns) : Option Finding :=
  (Severity.ofName? c.severity).map fun severity =>
    { id := c.id, severity := severity, tool := c.tool, filePath := c.filePath
      description := c.description, line := c.line, remediation := c.remediation
      codeExample := c.codeExample, rule := c.rule }

/-- A finding is put together again with all its fields. -/
@[simp] theorem finding?_of (job : String) (position : Nat) (f : Finding) :
    (of job position f).finding? = some f := by
  rw [finding?, of, Severity.ofName?_name, Option.map_some]

/-- The order that the query asks for: by severity, then by position. -/
def Precedes (a b : FindingColumns) : Prop :=
  Severity.orderOf a.severity < Severity.orderOf b.severity ∨
    Severity.orderOf a.severity = Severity.orderOf b.severity ∧ a.position ≤ b.position

/-- Rows that come before each other have the same position. -/
theorem Precedes.position_eq {a b : FindingColumns} (hab : a.Precedes b) (hba : b.Precedes a) :
    a.position = b.position := by
  rw [Precedes] at hab hba
  omega

end FindingColumns

/-- The columns of a row of the store. -/
def FindingRow.columns (x : FindingRow) : FindingColumns := .of x.job x.position x.finding

/-! ### Jobs -/

/-- A whole number. -/
def Json.Value.int? : Json.Value → Option Int
  | .int n => some n
  | _ => none

/-- A text, or that there is none. -/
def Json.Value.textOrNull? : Json.Value → Option (Option String)
  | .null => some none
  | .string s => some (some s)
  | _ => none

@[simp] theorem Json.Value.textOrNull?_jsonText (s : Option String) :
    (Finding.jsonText s).textOrNull? = some s := by
  cases s <;> rfl

/-- The counts of an object. -/
def ReviewStats.ofJson? (v : Json.Value) : Option ReviewStats := do
  return {
    total := ← (v.field "total_findings").int?
    reviewable := ← (v.field "reviewable_findings").int?
    reviewed := ← (v.field "reviewed_findings").int?
    matched := ← (v.field "matched_findings").int?
    files := ← (v.field "files_reviewed").int?
    skipped := ← (v.field "skipped_reason").textOrNull? }

@[simp] theorem ReviewStats.ofJson?_toJson (s : ReviewStats) :
    ReviewStats.ofJson? s.toJson = some s := by
  simp [ofJson?, toJson, Json.Value.field, Json.Value.fields, Json.Fields.get?, Json.Value.int?]

/-- A row of the table of jobs. -/
structure JobColumns where
  id : String
  address : String
  status : String
  languages : Json.Value
  stats : Json.Value
  error : Option String
  created : Moment
  completed : Option Moment
  expires : Moment

/-- The columns of a record of the store. -/
def JobRecord.columns (r : JobRecord) : JobColumns where
  id := r.id
  address := r.address
  status := r.status.name
  languages := .array (r.languages.map .string)
  stats := r.stats.elim .null ReviewStats.toJson
  error := r.error
  created := r.created
  completed := r.completed
  expires := r.expires

namespace JobColumns

/-- The review of a row, if there was one. -/
def stats? (c : JobColumns) : Option (Option ReviewStats) :=
  match c.stats with
  | .null => some none
  | v => (ReviewStats.ofJson? v).map some

/-- The job of a row and its findings, if its status is the name of one. -/
def job? (c : JobColumns) (findings : List Finding) : Option Job := do
  let status ← JobStatus.ofName? c.status
  let stats ← c.stats?
  return {
    id := c.id, address := c.address, status := status
    languages := c.languages.items.map Json.Value.text
    findings := findings, stats := stats, error := c.error, created := some c.created
    completed := c.completed, expires := some c.expires }

theorem stats?_columns (r : JobRecord) : r.columns.stats? = some r.stats := by
  rw [stats?, JobRecord.columns]
  cases r.stats with
  | none => rfl
  | some s =>
    show (ReviewStats.ofJson? s.toJson).map some = _
    rw [ReviewStats.ofJson?_toJson, Option.map_some]

/-- A job is put together again from the columns of its record. -/
theorem job?_columns (s : Store) (r : JobRecord) :
    r.columns.job? (s.findingsOf r.id) = some (s.toJob r) := by
  have hlanguages : r.columns.languages.items.map Json.Value.text = r.languages := by
    show (r.languages.map Json.Value.string).map Json.Value.text = _
    rw [List.map_map]
    exact List.map_id _
  rw [job?, stats?_columns, hlanguages]
  show (JobStatus.ofName? r.status.name).bind _ = _
  rw [JobStatus.ofName?_name]
  rfl

end JobColumns

/-! ### Both tables -/

/-- The two tables of a database. -/
structure Database where
  jobs : List JobColumns
  findings : List FindingColumns

namespace Database

/-- What a database may answer to the query for the rows of a job: all of them, in the order that the
query asks for. -/
structure Selects (d : Database) (id : String) (rows : List FindingColumns) : Prop where
  perm : rows.Perm (d.findings.filter fun c => c.job = id)
  sorted : rows.Pairwise FindingColumns.Precedes

/-- The job that is put together from its record and the rows of an answer. -/
def read? (d : Database) (id : String) (rows : List FindingColumns) : Option Job := do
  let record ← d.jobs.find? fun c => c.id = id
  let findings ← rows.mapM FindingColumns.finding?
  record.job? findings

end Database

namespace Store

variable {s s' : Store} {id : String} {j : Job}

/-- The tables of a store, column by column. -/
def database (s : Store) : Database where
  jobs := s.records.map JobRecord.columns
  findings := s.rows.map FindingRow.columns

theorem find?_jobs_database (s : Store) (id : String) :
    s.database.jobs.find? (fun c => c.id = id) = (s.record? id).map JobRecord.columns := by
  rw [database, List.find?_map, record?]
  rfl

theorem filter_findings_database (s : Store) (id : String) :
    s.database.findings.filter (fun c => c.job = id) = (s.rowsFor id).map FindingRow.columns := by
  rw [database, List.filter_map, rowsFor]
  rfl

/-- The rows of a list of findings are the columns of each at its position. -/
theorem map_columns_rowsOf (id : String) (findings : List Finding) :
    (rowsOf id findings).map FindingRow.columns = findings.mapIdx (FindingColumns.of id) :=
  List.ext_getElem (by simp [rowsOf]) (by simp [rowsOf, FindingRow.columns])

theorem mapM_finding? (rows : List FindingRow) :
    (rows.map FindingRow.columns).mapM FindingColumns.finding? =
      some (rows.map FindingRow.finding) := by
  induction rows with
  | nil => rfl
  | cons x rest ih => simp [List.mapM_cons, ih, FindingRow.columns]

/-- The store and the query put rows in the same order. -/
theorem FindingRow.precedes_iff {x y : FindingRow} :
    FindingRow.precedes x y = true ↔ x.columns.Precedes y.columns := by
  simp [FindingRow.precedes, FindingColumns.Precedes, FindingRow.columns, FindingColumns.of]

/-- Rows in the order of the store are in the order that the query asks for. -/
theorem pairwise_mergeSort_precedes (rows : List FindingRow) :
    ((rows.mergeSort FindingRow.precedes).map FindingRow.columns).Pairwise
      FindingColumns.Precedes := by
  have hsorted : (rows.mergeSort FindingRow.precedes).Pairwise fun x y =>
      FindingRow.precedes x y = true := by
    refine List.pairwise_mergeSort ?_ ?_ _
    · intro a b c hab hbc
      rw [FindingRow.precedes_iff, FindingColumns.Precedes] at hab hbc ⊢
      omega
    · intro a b
      rw [Bool.or_eq_true, FindingRow.precedes_iff, FindingRow.precedes_iff,
        FindingColumns.Precedes, FindingColumns.Precedes]
      omega
  exact List.pairwise_map.mpr (hsorted.imp FindingRow.precedes_iff.mp)

/-- Of the rows of a job with different positions there is one answer, in the order of the store. -/
theorem selects_database_iff (hpositions : ((s.rowsFor id).map FindingRow.position).Nodup)
    {rows : List FindingColumns} :
    s.database.Selects id rows ↔
      rows = ((s.rowsFor id).mergeSort FindingRow.precedes).map FindingRow.columns := by
  have hperm : ((s.rowsFor id).mergeSort FindingRow.precedes).Perm (s.rowsFor id) :=
    List.mergeSort_perm _ _
  have hall : (s.database.findings.filter fun c => c.job = id).Perm
      (((s.rowsFor id).mergeSort FindingRow.precedes).map FindingRow.columns) := by
    rw [filter_findings_database]
    exact (hperm.map _).symm
  constructor
  · intro hselects
    have hsame := hselects.perm.trans hall
    refine hsame.eq_of_pairwise ?_ hselects.sorted (pairwise_mergeSort_precedes _)
    intro a b ha hb hab hba
    obtain ⟨x, hx, rfl⟩ := List.mem_map.mp (hsame.mem_iff.mp ha)
    obtain ⟨y, hy, rfl⟩ := List.mem_map.mp hb
    -- two rows of the job with one position are one row
    have hxy : x = y := List.inj_on_of_nodup_map hpositions (hperm.mem_iff.mp hx)
      (hperm.mem_iff.mp hy) (hab.position_eq hba)
    rw [hxy]
  · intro hrows
    rw [hrows]
    exact ⟨hall.symm, pairwise_mergeSort_precedes _⟩

/-- **What the database answers is put together to the job that the store gives.** -/
theorem read?_database (hpositions : ((s.rowsFor id).map FindingRow.position).Nodup)
    (hget : s.get id = .ok j) :
    (∃ rows, s.database.Selects id rows) ∧
      ∀ rows, s.database.Selects id rows → s.database.read? id rows = some j := by
  refine ⟨⟨_, (selects_database_iff hpositions).mpr rfl⟩, ?_⟩
  intro rows hrows
  obtain rfl := (selects_database_iff hpositions).mp hrows
  rw [get] at hget
  rw [Database.read?, find?_jobs_database, mapM_finding?]
  cases hr : s.record? id with
  | none =>
    rw [hr] at hget
    cases hget
  | some r =>
    rw [hr] at hget
    obtain rfl := Except.ok.inj hget
    obtain rfl := id_of_record? hr
    exact JobColumns.job?_columns s r

end Store

end RepoAudit
