import RepoAudit.Proofs.Store

/-!
# Calls as sessions

A call works on a copy of the tables, statement by statement. The copy replaces the tables when the
last statement has been executed, and is thrown away when one is refused.

* `Store.Statement`, `Store.execute` — the statements and what they do to the tables;
* `Store.inSession` — the statements of a session, with what is left when one is refused;
* `Store.Call.statements` — the statements of a call; a completion adds its rows one by one;
* `Store.inSession_statements` — **a call whose session is refused leaves the tables as they were,
  however far it had got; otherwise its statements come to what the store answers**.
-/

namespace RepoAudit.Store

variable {s : Store} {id : String}

/-- A statement of a session: a question that may be answered with a refusal, a new record, a new row,
or a change of the record of a job. -/
inductive Statement where
  | require (check : Store → Except JobError Unit)
  | addRecord (r : JobRecord)
  | addRow (x : FindingRow)
  | change (id : String) (f : JobRecord → JobRecord)

/-- The tables after a statement. Nothing is added under an identifier that is already there. -/
def execute (s : Store) : Statement → Except JobError Store
  | .require check => (check s).map fun _ => s
  | .addRecord r =>
    if (s.record? r.id).isSome then .error .duplicate
    else .ok { s with records := s.records ++ [r] }
  | .addRow x =>
    if s.rows.any fun y => y.finding.id = x.finding.id then .error .duplicate
    else .ok { s with rows := s.rows ++ [x] }
  | .change id f => .ok (s.update id f)

/-- The tables after some statements, up to the first one that is refused, and why it was. -/
def executeAll (s : Store) : List Statement → Store × Option JobError
  | [] => (s, none)
  | x :: rest =>
    match s.execute x with
    | .ok s' => executeAll s' rest
    | .error e => (s, some e)

/-- What is left of a session: its copy of the tables, or the tables as they were and the refusal. -/
def inSession (s : Store) (statements : List Statement) : Store × Option JobError :=
  match s.executeAll statements with
  | (s', none) => (s', none)
  | (_, some e) => (s, some e)

/-- Whether a job is there. -/
def knows (s : Store) (id : String) : Except JobError Unit :=
  match s.record? id with
  | none => .error (.notFound id)
  | some _ => .ok ()

/-- Whether the lines of some findings fit into the table. -/
def fits (findings : List Finding) : Except JobError Unit :=
  if findings.all holdsLine then .ok () else .error .numberTooLarge

/-- The statements of a call. -/
def Call.statements : Call → List Statement
  | .create now job =>
    match job.expires with
    | none => [.require fun _ => .error .lacksExpiry]
    | some expires => [.addRecord (.ofJob job now expires)]
  | .transition id target =>
    [.require fun s => (s.movable id target).map fun _ => (),
      .change id fun r => { r with status := target }]
  | .setLanguages id languages =>
    [.require fun s => s.knows id, .change id fun r => { r with languages := languages }]
  | .fail now id error =>
    [.require fun s => (s.movable id .failed).map fun _ => (),
      .change id fun r =>
        { r with status := .failed, error := some error, completed := some now.asUniversal }]
  | .complete now id findings stats =>
    [.require fun s => (s.movable id .completed).map fun _ => (), .require fun _ => fits findings] ++
      (rowsOf id findings).map .addRow ++
      [.change id fun r =>
        { r with status := .completed, stats := stats, completed := some now.asUniversal }]

/-! ### Sessions that are refused -/

/-- What a caller is left with after an answer. -/
def left (s : Store) : Except JobError Store → Store × Option JobError
  | .ok s' => (s', none)
  | .error e => (s, some e)

/-- A session is all of its statements or nothing. -/
theorem inSession_eq (s : Store) (statements : List Statement) :
    s.inSession statements = s.left (statements.foldlM execute s) := by
  have hall : ∀ copy : Store, match copy.executeAll statements with
      | (s', none) => statements.foldlM execute copy = .ok s'
      | (_, some e) => statements.foldlM execute copy = .error e := by
    induction statements with
    | nil => intro copy; rfl
    | cons x rest ih =>
      intro copy
      rw [executeAll, List.foldlM_cons]
      cases copy.execute x with
      | error e => rfl
      | ok copy' => exact ih copy'
  have hs := hall s
  rw [inSession]
  split at hs
  · rw [hs]
    rfl
  · rw [hs]
    rfl

/-! ### The statements of a call -/

theorem foldlM_require {check : Store → Except JobError Unit} {rest : List Statement} :
    (Statement.require check :: rest).foldlM execute s =
      (check s >>= fun _ => rest.foldlM execute s) := by
  rw [List.foldlM_cons, execute]
  cases check s <;> rfl

theorem foldlM_change (id : String) (f : JobRecord → JobRecord) :
    [Statement.change id f].foldlM execute s = .ok (s.update id f) := rfl

/-- Rows are added one by one. -/
theorem foldlM_addRow (rows : List FindingRow) (rest : List Statement) :
    (rows.map Statement.addRow ++ rest).foldlM execute s =
      (s.insertRows rows >>= fun s' => rest.foldlM execute s') := by
  induction rows generalizing s with
  | nil => rfl
  | cons x rows ih =>
    rw [List.map_cons, List.cons_append, List.foldlM_cons, execute, insertRows]
    split
    · rfl
    · exact ih

/-- What depends on a move being permitted, as a statement and as a step of an operation. -/
theorem map_movable_bind {target : JobStatus} {k : Except JobError Store} :
    ((s.movable id target).map (fun _ => ()) >>= fun _ => k) = (s.movable id target >>= fun _ => k) := by
  cases s.movable id target <;> rfl

/-- The statements of a call come to what the store answers to it. -/
theorem foldlM_statements (s : Store) (c : Call) :
    c.statements.foldlM execute s = s.answer c := by
  cases c with
  | create now job =>
    show (Call.create now job).statements.foldlM execute s = s.create now job
    rw [Call.statements, Store.create]
    cases job.expires with
    | none => rfl
    | some expires =>
      show (s.execute (.addRecord (.ofJob job now expires)) >>= pure) = _
      rw [bind_pure, execute]
      rfl
  | transition id target =>
    show (Call.transition id target).statements.foldlM execute s = s.transition id target
    rw [Call.statements, foldlM_require, foldlM_change, map_movable_bind, Store.transition]
    rfl
  | setLanguages id languages =>
    show (Call.setLanguages id languages).statements.foldlM execute s = s.setLanguages id languages
    rw [Call.statements, foldlM_require, foldlM_change, knows, Store.setLanguages]
    cases s.record? id <;> rfl
  | fail now id error =>
    show (Call.fail now id error).statements.foldlM execute s = s.fail now id error
    rw [Call.statements, foldlM_require, foldlM_change, map_movable_bind, Store.fail]
    rfl
  | complete now id findings stats =>
    show (Call.complete now id findings stats).statements.foldlM execute s =
      s.complete now id findings stats
    rw [Call.statements, List.append_assoc, List.cons_append, List.cons_append, List.nil_append,
      foldlM_require, foldlM_require, foldlM_addRow, map_movable_bind, Store.complete, fits]
    cases s.movable id .completed with
    | error e => rfl
    | ok r =>
      cases findings.all holdsLine with
      | false => rfl
      | true => rfl

/-- **A call is all of its statements or nothing.** A refused call leaves the tables as they were,
although its session may have added rows before; a granted call leaves what the store answers. -/
theorem inSession_statements (s : Store) (c : Call) :
    s.inSession c.statements = s.left (s.answer c) := by
  rw [inSession_eq, foldlM_statements]

/-- The second of two findings has the identifier of the first. The first row is added to the copy of
the tables, and thrown away with it. -/
example :
    let s : Store := ⟨[⟨"j", "u", .scanning, [], none, none, ⟨1, 0, none⟩, none, ⟨8, 0, none⟩⟩], []⟩
    let f : Finding := { id := "f", severity := .high, tool := "t", filePath := "p", description := "d" }
    let c : Call := .complete ⟨2, 0, none⟩ "j" [f, f] none
    (s.executeAll c.statements).1.rows.length = 1 ∧ s.inSession c.statements = (s, some .duplicate) := by
  decide

end RepoAudit.Store
