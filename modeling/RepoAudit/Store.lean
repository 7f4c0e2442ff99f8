import RepoAudit.Job

/-!
# The store of jobs

Two tables: a record per job, and a row per finding of a completed job.

* `Store` — the tables.
* `Store.create`, `Store.transition`, `Store.setLanguages`, `Store.fail`, `Store.complete` — the
  operations. Each answers with the new store or with the reason why it stays as it is.
* `Store.get` — a job as the tables show it, its findings by severity and then as they were given.

The tables are those that SQLite keeps: a column for text holds any text, however long and with U+0000 in
it, and a column for whole numbers holds those of 64 bits with a sign (`holdsLine`). A database that
enforces the widths of its columns, or takes no U+0000, refuses more.
-/

namespace RepoAudit

/-- What the table of jobs holds about a job. -/
structure JobRecord where
  id : String
  address : String
  status : JobStatus
  languages : List String := []
  stats : Option ReviewStats := none
  error : Option String := none
  created : Moment
  completed : Option Moment := none
  expires : Moment
  deriving Repr, DecidableEq

/-- A finding of a job and its place in the list that was given. -/
structure FindingRow where
  job : String
  position : Nat
  finding : Finding
  deriving Repr, DecidableEq

/-- The tables. -/
structure Store where
  records : List JobRecord := []
  rows : List FindingRow := []
  deriving Repr, DecidableEq

namespace Store

/-- The record of a job. -/
def record? (s : Store) (id : String) : Option JobRecord := s.records.find? fun r => r.id = id

/-- The store with the record of a job changed. -/
def update (s : Store) (id : String) (f : JobRecord → JobRecord) : Store :=
  { s with records := s.records.map fun r => if r.id = id then f r else r }

/-- The record of a job that may move to a stage. -/
def movable (s : Store) (id : String) (target : JobStatus) : Except JobError JobRecord :=
  match s.record? id with
  | none => .error (.notFound id)
  | some r =>
    if r.status.canMoveTo target then .ok r else .error (.transition id r.status target)

/-- Adds a job. Its findings, its review and its end are not kept; a clock reading loses its
difference from universal time and is taken as universal time afterwards. A job without a moment of
creation is created now. -/
def create (s : Store) (now : Moment) (j : Job) : Except JobError Store :=
  match j.expires with
  | none => .error .lacksExpiry
  | some expires =>
    if (s.record? j.id).isSome then .error .duplicate
    else
      .ok { s with records := s.records ++ [{
        id := j.id, address := j.address, status := j.status, languages := j.languages
        error := j.error, created := (j.created.getD now).asUniversal
        expires := expires.asUniversal }] }

/-- Whether a row comes before another or beside it: by severity, then by position. -/
def FindingRow.precedes (a b : FindingRow) : Bool :=
  a.finding.severity.rank < b.finding.severity.rank ||
    (a.finding.severity.rank == b.finding.severity.rank && a.position ≤ b.position)

/-- The findings of a job in order. -/
def findingsOf (s : Store) (id : String) : List Finding :=
  ((s.rows.filter fun r => r.job = id).mergeSort FindingRow.precedes).map FindingRow.finding

/-- The job of a record and its findings. -/
def toJob (s : Store) (r : JobRecord) : Job where
  id := r.id
  address := r.address
  status := r.status
  languages := r.languages
  findings := s.findingsOf r.id
  stats := r.stats
  error := r.error
  created := some r.created
  completed := r.completed
  expires := some r.expires

/-- A job. -/
def get (s : Store) (id : String) : Except JobError Job :=
  match s.record? id with
  | none => .error (.notFound id)
  | some r => .ok (s.toJob r)

/-- Moves a job to a stage. -/
def transition (s : Store) (id : String) (target : JobStatus) : Except JobError Store := do
  let _ ← s.movable id target
  return s.update id fun r => { r with status := target }

/-- Replaces the languages of a job. -/
def setLanguages (s : Store) (id : String) (languages : List String) : Except JobError Store :=
  match s.record? id with
  | none => .error (.notFound id)
  | some _ => .ok (s.update id fun r => { r with languages := languages })

/-- Ends a job with an error. -/
def fail (s : Store) (now : Moment) (id error : String) : Except JobError Store := do
  let _ ← s.movable id .failed
  return s.update id fun r =>
    { r with status := .failed, error := some error, completed := some now.asUniversal }

/-- The rows of a list of findings. -/
def rowsOf (id : String) (findings : List Finding) : List FindingRow :=
  findings.mapIdx fun n f => ⟨id, n, f⟩

/-- Whether the table of findings can hold a line number. -/
def holdsLine (f : Finding) : Bool := f.line.all Json.fitsInWord

/-- Writes rows one by one; one whose identifier is already there is refused. -/
def insertRows (s : Store) : List FindingRow → Except JobError Store
  | [] => .ok s
  | r :: rest =>
    if s.rows.any fun x => x.finding.id = r.finding.id then .error .duplicate
    else insertRows { s with rows := s.rows ++ [r] } rest

/-- Ends a job with its findings. Either all of it is written or nothing. -/
def complete (s : Store) (now : Moment) (id : String) (findings : List Finding)
    (stats : Option ReviewStats) : Except JobError Store := do
  let _ ← s.movable id .completed
  if !findings.all holdsLine then throw .numberTooLarge
  let s ← s.insertRows (rowsOf id findings)
  return s.update id fun r =>
    { r with status := .completed, stats := stats, completed := some now.asUniversal }

end Store

end RepoAudit
