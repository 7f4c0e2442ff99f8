import RepoAudit.Machine
import RepoAudit.Rehearsal.Actor
import RepoAudit.Rehearsal.Shell.Arithmetic
import RepoAudit.Rehearsal.Shell.Command
import RepoAudit.Rehearsal.Shell.Tools

/-!
# Running scripts of a shell

A script is run on a file tree with a clock of its own: what it prints is kept with its time, so that
the run can be watched, stopped at a deadline or cancelled.

* `State` — a shell at work.
* `run` — a command run in a shell.
* `programs` — the shell and the small tools as programs of a machine.
-/

namespace RepoAudit.Rehearsal.Shell

/-- Where a stream goes: into a numbered stream, into a file, or nowhere. -/
inductive Target where
  | stream (n : Nat)
  | file (loc : Location)
  | nowhere
  deriving Repr, DecidableEq

/-- Bytes written to a numbered stream at a time. -/
structure Writing where
  time : Decimal
  stream : Nat
  content : Bytes

/-- Whether a shell goes on, and if not, why. -/
inductive Standing where
  | going
  | exited (code : Nat)
  | killed (signal : Nat)
  | stuck
  deriving Repr, DecidableEq

/-- A shell at work. Streams 1 and 2 are those that it was started with; `held` is how long work in
the background keeps them open. What has been written is kept last first. -/
structure State where
  files : FileTree
  place : Location
  name : String := "sh"
  args : List String := []
  vars : List (String × String) := []
  exported : List String := []
  status : Nat := 0
  clock : Decimal := .ofInt 0
  input : Bytes := []
  out : Target := .stream 1
  err : Target := .stream 2
  streams : Nat := 2
  writings : List Writing := []
  held : Decimal := .ofInt 0
  jobs : List (Nat × Decimal) := []
  traps : List (Nat × String) := []
  standing : Standing := .going

/-- The number of the shell itself. -/
def ownNumber : Nat := 4242

/-- The directories that hold the programs of the machine. -/
def programPlaces : List String := ["/usr/bin", "/bin"]

/-- Whether the variables say that programs are looked for in a directory that holds them. -/
def finds (vars : List (String × String)) : Bool :=
  (Text.splitOn ':' ((vars.lookup "PATH").getD "").toList).any fun cs =>
    programPlaces.contains (String.ofList cs)

/-- A time that is never reached. -/
def never : Decimal := .ofInt 1000000000

/-- The later of two times. -/
def later (a b : Decimal) : Decimal := if a.le b then b else a

namespace State

/-- Writes bytes to a target. -/
def put (st : State) (t : Target) (content : Bytes) : State :=
  if content.isEmpty then st
  else
    match t with
    | .stream n => { st with writings := ⟨st.clock, n, content⟩ :: st.writings }
    | .file loc =>
      let old := match st.files.entryAt? loc with
        | some (.file c) => c.toBytes
        | _ => []
      { st with files := st.files.put loc (.file (.bytes (old ++ content))) }
    | .nowhere => st

/-- A complaint of the shell, with the code that it leaves. -/
def complain (st : State) (code : Nat) (message : String) : State :=
  { st.put st.err (bytes (st.name ++ ": 1: " ++ message ++ "\n")) with status := code }

/-- What has been written to a stream. -/
def written (st : State) (stream : Nat) : Bytes :=
  (st.writings.filter fun w => w.stream = stream).reverse.flatMap Writing.content

/-- The value of a variable. -/
def value? (st : State) (name : String) : Option String :=
  match name with
  | "?" => some (toString st.status)
  | "$" => some (toString ownNumber)
  | "!" => st.jobs.head?.map fun j => toString j.1
  | "0" => some st.name
  | "#" => some (toString st.args.length)
  | "@" | "*" => if st.args.isEmpty then none else some (String.intercalate " " st.args)
  | _ =>
    match name.toList, name.toNat? with
    | '#' :: cs, _ => some (toString ((st.vars.lookup (String.ofList cs)).getD "").length)
    | _, some n => st.args[n - 1]?
    | _, none => st.vars.lookup name

/-- The shell with a variable set. -/
def assign (st : State) (name value : String) : State :=
  { st with vars := (name, value) :: st.vars.filter fun v => v.1 ≠ name }

/-- The environment of a program. -/
def environment (st : State) : List (String × String) :=
  st.vars.filter fun v => st.exported.contains v.1

/-- The number that a name stands for in an expression. -/
def number (st : State) (name : String) : Int := integerOf ((st.value? name).getD "")

/-- Whether the programs of the machine are among those that the shell looks for. -/
def findsPrograms (st : State) : Bool := finds st.vars

/-- The shell when it cannot go on. -/
def stop (st : State) : State := { st with standing := .stuck }

/-- When the shell stops, as far as it is known. -/
def endTime (st : State) : Decimal := if st.standing = .stuck then never else st.clock

/-- The code that a shell leaves to the one around it. -/
def code (st : State) : Nat :=
  match st.standing with
  | .exited c => c
  | .killed s => 128 + s
  | _ => st.status

end State

/-! ### Fields -/

/-- A character of an expanded word, or the mark of a quoted text that may be empty. -/
inductive Atom where
  | char (c : Char) (quoted : Bool)
  | mark
  deriving Repr, DecidableEq

/-- The characters of atoms. -/
def charsOf (as : List Atom) : List Char :=
  as.filterMap fun a => match a with | .char c _ => some c | .mark => none

/-- The fields of an expanded word: it is split at blanks that are not quoted. -/
def fieldsOf (as : List Atom) : List (List Atom) :=
  let (last, done) := as.foldl (fun ((field, done) : List Atom × List (List Atom)) a =>
    match a with
    | .char ' ' false | .char '\n' false | .char '\t' false =>
      ([], if field.isEmpty then done else field.reverse :: done)
    | a => (a :: field, done)) ([], [])
  (if last.isEmpty then done else last.reverse :: done).reverse

/-- Whether a name matches a pattern of atoms, where `*` and `?` stand for any text and any
character unless they are quoted. -/
def matchesName : List Atom → List Char → Bool
  | [], cs => cs.isEmpty
  | .mark :: as, cs => matchesName as cs
  | .char '*' false :: as, [] => matchesName as []
  | .char '*' false :: as, c :: cs => matchesName as (c :: cs) || matchesName (.char '*' false :: as) cs
  | .char '?' false :: as, _ :: cs => matchesName as cs
  | .char x _ :: as, c :: cs => x = c && matchesName as cs
  | .char _ _ :: _, [] => false
termination_by as cs => as.length + cs.length

/-- The texts of a field: the names that it matches, or the field itself. -/
def globbed (st : State) (field : List Atom) : List String :=
  let literal := String.ofList (charsOf field)
  if field.contains (.char '*' false) || field.contains (.char '?' false) then
    let names := Text.sort ((st.files.namesIn st.place).filter fun s =>
      !s.startsWith "." && matchesName field s.toList)
    if names.isEmpty then [literal] else names
  else [literal]

/-- The atoms of a text. -/
def atomsOf (quoted : Bool) (s : String) : List Atom :=
  (if quoted then [.mark] else []) ++ s.toList.map (Atom.char · quoted)

/-! ### Redirections -/

/-- The shell with one of its two streams sent elsewhere. -/
def sendTo (st : State) (stream : Nat) (t : Target) : State :=
  if stream = 1 then { st with out := t } else if stream = 2 then { st with err := t } else st

/-- Where a stream of the shell goes. -/
def targetOf (st : State) (stream : String) : Target :=
  match stream with
  | "1" => st.out
  | "2" => st.err
  | _ => .nowhere

/-- The shell with a stream sent into a file, which is emptied unless more is added to it. -/
def sendToFile (st : State) (stream : Nat) (append : Bool) (path : String) : Except String State :=
  if path = "/dev/null" then .ok (sendTo st stream .nowhere)
  else
    match st.files.locate st.place true path with
    | .ok loc =>
      if st.files.entryAt? loc = some .directory then
        .error ("cannot create " ++ path ++ ": Is a directory")
      else
        let files := if append then st.files else st.files.put loc (.file (.bytes []))
        .ok (sendTo { st with files := files } stream (.file loc))
    | .error _ =>
      let names := Path.parts path
      let parent := if names.length = 1 then "." else Path.ofParts (names.dropLast ++ [""])
      match st.files.locate st.place true parent with
      | .ok loc =>
        let loc := loc ++ [names.getLast?.getD ""]
        .ok (sendTo { st with files := st.files.put loc (.file (.bytes [])) } stream (.file loc))
      | .error _ => .error ("cannot create " ++ path ++ ": Directory nonexistent")

/-- The shell with its input taken from a file. -/
def readFrom (st : State) (path : String) : Except String State :=
  if path = "/dev/null" ∨ path = "" then .ok { st with input := [] }
  else
    match st.files.read st.place path with
    | .ok c => .ok { st with input := c.toBytes }
    | .error _ => .error ("cannot open " ++ path ++ ": No such file")

/-! ### Signals -/

/-- The numbers of signals by name. -/
def signalNames : List (String × Nat) :=
  [("EXIT", 0), ("HUP", 1), ("INT", 2), ("QUIT", 3), ("ABRT", 6), ("KILL", 9), ("USR1", 10),
    ("SEGV", 11), ("USR2", 12), ("PIPE", 13), ("ALRM", 14), ("TERM", 15), ("CHLD", 17),
    ("CONT", 18), ("STOP", 19), ("TSTP", 20)]

/-- The number of a signal that a text names. -/
def signalOf (s : String) : Option Nat :=
  match s.toNat? with
  | some n => some n
  | none => signalNames.lookup (if s.startsWith "SIG" then String.ofList (s.toList.drop 3) else s)

/-- The signals that do nothing unless they are caught. -/
def harmless : List Nat := [0, 17, 18, 23, 28]

/-- The signals that only stop a program for a while. -/
def stopping : List Nat := [19, 20, 21, 22]

/-- The signal of a request to send one, and the numbers that it is sent to. -/
def sending (args : List String) : Option (Nat × List String) :=
  match args with
  | "-s" :: s :: r => (signalOf s).map (·, r)
  | s :: r =>
    match s.toList with
    | '-' :: cs => (signalOf (String.ofList cs)).map (·, r)
    | _ => some (15, s :: r)
  | [] => none

/-! ### Commands -/

/-- Whether a command at the end of a pipe stops reading before the end. -/
def readsLittle : Command → Bool
  | .simple ((w) :: _) _ => (plain? w).any ["head", "true", "false", "echo", "read", "exit"].contains
  | .pipe a _ => readsLittle a
  | _ => false

/-- The redirections of a whole command. -/
def redirectsOf : Command → List Redirect
  | .simple _ rs | .subshell _ rs | .group _ rs => rs
  | _ => []

/-- Whether a target is one of the streams that the shell was started with. -/
def isOutside : Target → Bool
  | .stream n => n ≤ 2
  | _ => false

/-- The shell after another one that it started has ended. -/
def rejoin (st inner : State) : State :=
  { st with
    files := inner.files, clock := inner.clock, writings := inner.writings, held := inner.held
    streams := inner.streams, status := inner.code, input := inner.input
    standing := if inner.standing = .stuck then .stuck else st.standing }

/-- The shell after a tool. -/
def afterTool (st : State) (d : Done) : State :=
  let st := (st.put st.out d.out).put st.err d.err
  { st with
    status := d.code, clock := st.clock.add d.lasts, input := d.rest
    standing := if d.endless then .stuck else st.standing }

/-- What a tool finds around it in a shell. -/
def around (st : State) : Around := ⟨st.files, st.place, st.environment, st.input⟩

/-- Some work in a shell whose streams are redirected, if they can be; they are as before
afterwards. -/
def redirected (st : State) (rs : List Redirect) (r : Except String State)
    (work : State → State) : State :=
  match r with
  | .ok inner =>
    let done := work inner
    let fromFile := rs.any fun r => match r with
      | .source _ => true
      | _ => false
    { done with
      out := st.out, err := st.err, input := if fromFile then st.input else done.input }
  | .error e => st.complain 2 e

mutual

/-- The atoms of a word. -/
def expand : Nat → State → Word → List Atom × State
  | 0, st, _ => ([], st.stop)
  | _, st, [] => ([], st)
  | n + 1, st, p :: ps =>
    let (now, st) := expandPiece n st p
    let (more, st) := expand n st ps
    (now ++ more, st)

/-- The atoms of a piece of a word. -/
def expandPiece : Nat → State → Piece → List Atom × State
  | 0, st, _ => ([], st.stop)
  | _, st, .text cs quoted => (atomsOf quoted (String.ofList cs), st)
  | _, st, .variable "@" true =>
    ([Atom.char ' ' false].intercalate (st.args.map (atomsOf true)), st)
  | _, st, .variable name quoted => (atomsOf quoted ((st.value? name).getD ""), st)
  | n + 1, st, .arithmetic expression quoted =>
    let (as, st) := instead n st expression false
    match Arithmetic.value? st.number (charsOf as) with
    | some v => (atomsOf quoted (Decimal.renderInt v), st)
    | none =>
      ([], { st.complain 2 "arithmetic expression: expecting primary" with standing := .exited 2 })
  | n + 1, st, .fallback name whenEmpty word quoted =>
    match st.value? name with
    | some v =>
      if whenEmpty && v = "" then instead n st word quoted else (atomsOf quoted v, st)
    | none => instead n st word quoted
  | n + 1, st, .output commands quoted =>
    let stream := st.streams + 1
    let inner := script n { st with streams := stream, out := .stream stream } commands
    let text := (Text.Utf8.textOf (inner.written stream)).toList.reverse.dropWhile (· == '\n')
    let inner := { inner with writings := inner.writings.filter fun w => w.stream ≠ stream }
    (atomsOf quoted (String.ofList text.reverse), rejoin st inner)

/-- The atoms of a word that takes the place of a missing value. -/
def instead : Nat → State → List Char → Bool → List Atom × State
  | 0, st, _, _ => ([], st.stop)
  | n + 1, st, cs, quoted =>
    match pieces (2 * cs.length + 2) true (cs ++ ['"']) with
    | some (w, _) =>
      let (as, st) := expand n st w
      (atomsOf quoted (String.ofList (charsOf as)), st)
    | none => ([], st)

/-- The fields of some words. -/
def expandAll : Nat → State → List Word → List String × State
  | 0, st, _ => ([], st.stop)
  | _, st, [] => ([], st)
  | n + 1, st, w :: ws =>
    let (as, st) := expand n st w
    let (more, st) := expandAll n st ws
    ((fieldsOf as).flatMap (globbed st) ++ more, st)

/-- The text of a word that is not split. -/
def expandText : Nat → State → Word → String × State
  | 0, st, _ => ("", st.stop)
  | n + 1, st, w =>
    let (as, st) := expand n st w
    (String.ofList (charsOf as), st)

/-- The shell with its streams redirected. -/
def redirect : Nat → State → List Redirect → Except String State
  | 0, st, _ => .ok st.stop
  | _, st, [] => .ok st
  | n + 1, st, r :: rs =>
    let one : Except String State := match r with
      | .source w => let (path, st) := expandText n st w; readFrom st path
      | .same stream w =>
        let (from_, st) := expandText n st w
        .ok (sendTo st stream (targetOf st from_))
      | .target stream append w =>
        let (path, st) := expandText n st w
        sendToFile st stream append path
    match one with
    | .ok st => redirect n st rs
    | .error e => .error e

/-- Runs a text as a script. -/
def script : Nat → State → List Char → State
  | 0, st, _ => st.stop
  | n + 1, st, cs =>
    match Command.parse? cs with
    | some c => run n c st
    | none => { st.complain 2 "Syntax error: Unterminated quoted string" with standing := .exited 2 }

/-- Runs a command. -/
def run : Nat → Command → State → State
  | 0, _, st => st.stop
  | n + 1, c, st =>
    if st.standing ≠ .going then st
    else
      match c with
      | .nothing => st
      | .sequence a b => run n b (run n a st)
      | .both a b =>
        let st := run n a st
        if st.status = 0 then run n b st else st
      | .either a b =>
        let st := run n a st
        if st.status = 0 then st else run n b st
      | .negate a =>
        let st := run n a st
        { st with status := if st.status = 0 then 1 else 0 }
      | .choice test a b =>
        let st := run n test st
        if st.status = 0 then run n a st
        else run n b { st with status := 0 }
      | .loop wanted test body =>
        let st := run n test st
        if (st.status = 0) = wanted then run n (.loop wanted test body) (run n body st)
        else { st with status := 0 }
      | .each name words body =>
        let (fields, st) := expandAll n st words
        fields.foldl (fun st v => run n body (st.assign name v)) st
      | .group a rs => redirected st rs (redirect n st rs) (run n a)
      | .subshell a rs => redirected st rs (redirect n st rs) fun inner =>
           rejoin inner (leave n (run n a { inner with traps := [] }))
      | .background a =>
        let inner := leave n (run n a { st with input := [], traps := [] })
        let number := ownNumber + 1 + st.jobs.length
        let own := match redirect n st (redirectsOf a) with
          | .ok x => x
          | .error _ => st
        let holds := isOutside own.out || isOutside own.err
        { st with
          files := inner.files, writings := inner.writings, streams := inner.streams, status := 0
          held := later inner.held (if holds then inner.endTime else .ofInt 0)
          jobs := (number, inner.endTime) :: st.jobs }
      | .pipe a b =>
        let stream := st.streams + 1
        let left := leave n (run n a { st with streams := stream, out := .stream stream, traps := [] })
        let (sent, kept) := left.writings.partition fun w => w.stream = stream
        let endless := left.standing = .stuck
        let start := if endless then st.clock else left.clock
        let right := leave n (run n b { st with
          files := left.files, streams := left.streams, writings := kept, clock := start
          held := left.held, input := sent.reverse.flatMap Writing.content, traps := [] })
        let done := rejoin { st with input := st.input } right
        { done with
          input := st.input
          standing := if endless && !readsLittle b then .stuck else done.standing }
      | .simple words rs =>
        let assignments := (words.takeWhile fun w => (assignment? w).isSome).filterMap assignment?
        let (fields, st) := expandAll n st (words.drop assignments.length)
        let (st, values) := assignments.foldl (fun ((st, values) : State × List (String × String)) (name, w) =>
          let (v, st) := expandText n st w
          (st, values ++ [(name, v)])) (st, [])
        let set (st : State) : State := values.foldl (fun st (name, v) => st.assign name v) st
        if st.standing ≠ .going then st
        else match fields with
        | [] => redirected (set st) rs (redirect n (set st) rs) id
        | name :: args =>
          let inner := set { st with exported := st.exported ++ values.map Prod.fst }
          let done := redirected inner rs (redirect n inner rs) (invoke n name args)
          if values.isEmpty then done
          else { done with vars := st.vars, exported := st.exported }

/-- Runs a command of a name: one of the shell itself, or a program. -/
def invoke : Nat → String → List String → State → State
  | 0, _, _, st => st.stop
  | n + 1, name, args, st =>
    match name, args with
    | "exit", [] => { st with standing := .exited (st.status % 256) }
    | "exit", code :: _ =>
      match code.toNat? with
      | some c => { st with standing := .exited (c % 256) }
      | none => { st.complain 2 ("exit: Illegal number: " ++ code) with standing := .exited 2 }
    | "shift", _ => { st with args := st.args.drop 1, status := 0 }
    | "set", "--" :: args => { st with args := args, status := 0 }
    | "cd", path :: _ =>
      match st.files.locate st.place true path with
      | .ok loc => { st with place := loc, status := 0 }
      | .error _ => st.complain 2 ("cd: can't cd to " ++ path)
    | "read", _ =>
      let names := args.filter fun s => s ≠ "-r"
      let line := ((linesOf st.input).head?).getD []
      let text := Text.Utf8.textOf (if line.getLast? = some 10 then line.dropLast else line)
      { st.assign (names.headD "REPLY") text with
        input := st.input.drop line.length
        status := if line.getLast? = some 10 then 0 else 1 }
    | "export", _ =>
      args.foldl (fun st s =>
        let name := String.ofList (s.toList.takeWhile (· != '='))
        let st := { st with exported := name :: st.exported }
        if s.toList.contains '=' then st.assign name (String.ofList (s.toList.drop (name.length + 1)))
        else st) { st with status := 0 }
    | "unset", _ =>
      { st with vars := st.vars.filter fun v => !args.contains v.1, status := 0 }
    | "trap", action :: signals =>
      { st with status := 0, traps := signals.filterMap (fun s => (signalOf s).map (·, action)) ++ st.traps }
    | "wait", _ =>
      let last := st.jobs.foldl (fun t j => later t j.2) st.clock
      { st with clock := last, status := 0
                standing := if never.le last then .stuck else st.standing }
    | "kill", _ =>
      match sending args with
      | none => st.complain 2 "kill: Usage"
      | some (signal, targets) => targets.foldl (fun st t => send n signal t st) { st with status := 0 }
    | "eval", _ => script n st (String.intercalate " " args).toList
    | "exec", [] => { st with status := 0 }
    | "exec", name :: args =>
      let st := invoke n name args st
      if st.standing = .going then { st with standing := .exited st.status } else st
    | "set", _ | "umask", _ | "ulimit", _ => { st with status := 0 }
    | "echo", _ => afterTool st { echo true args with rest := st.input }
    | "sh", "-c" :: text :: more =>
      rejoin st (leave n (script n { st with
        name := more.headD "sh", args := more.drop 1, vars := st.environment, traps := []
        jobs := [] } text.toList))
    | _, _ =>
      let plain := if programPlaces.contains (Path.directoryName name) then Path.baseName name else name
      let known := plain ≠ name || ownTools.contains name || st.findsPrograms
      match if known then tool? plain else none with
      | some t => afterTool st (t (around st) args)
      | none =>
        if name.toList.contains '/' then
          match st.files.locate st.place true name with
          | .ok _ => st.complain 126 (name ++ ": Permission denied")
          | .error _ => st.complain 127 (name ++ ": not found")
        else st.complain 127 (name ++ ": not found")

/-- Sends a signal to the shell itself or to a job of it. -/
def send : Nat → Nat → String → State → State
  | 0, _, _, st => st
  | n + 1, signal, target, st =>
    let number := target.toNat?.getD 0
    if number = ownNumber ∨ number = 0 then
      match if signal = 9 then none else st.traps.lookup signal with
      | some "" => st
      | some "-" | none =>
        if harmless.contains signal then st
        else if stopping.contains signal then { st with standing := .stuck }
        else { st with standing := .killed signal }
      | some action => script n st action.toList
    else if st.jobs.any fun j => j.1 = number then
      if signal = 0 then st
      else
        let jobs := st.jobs.map fun j => if j.1 = number then (j.1, st.clock) else j
        { st with jobs := jobs, held := jobs.foldl (fun t j => later t j.2) (.ofInt 0) }
    else st.complain 1 ("kill: No such process")

/-- The end of a shell, with what it does on leaving. -/
def leave : Nat → State → State
  | 0, st => st
  | n + 1, st =>
    match st.standing, st.traps.lookup 0 with
    | .killed _, _ | .stuck, _ | _, none | _, some "" => st
    | standing, some action =>
      let done := script n { st with standing := .going, traps := [] } action.toList
      match done.standing with
      | .going => { done with standing := match standing with | .going => .exited st.status | s => s }
      | _ => done

end

/-! ### Programs -/

/-- How deep a script may go. -/
def depth : Nat := 100000

/-- What a shell that has ended looks like from outside. -/
def behaviour (st : State) : Execution.Behaviour where
  stdout := (st.writings.filter fun w => w.stream = 1).reverse.map fun w => (w.time, w.content)
  stderr := st.written 2
  ends := later st.endTime st.held
  code :=
    match st.standing with
    | .killed s => -(s : Int)
    | _ => st.code

/-- A shell in a place, with the variables that it is started with. -/
def start (l : Launch) (place : Location) (files : FileTree) : State where
  files := files
  place := place
  vars := l.vars
  exported := l.vars.map Prod.fst

/-- The shell as a program: it runs the text after `-c`, or the script in a file. -/
def shell : Program := fun l place files =>
  let st := start l place files
  let st := match l.args with
    | "-c" :: text :: more =>
      leave depth (script depth { st with name := more.headD st.name, args := more.drop 1 } text.toList)
    | path :: more =>
      match files.read place path with
      | .ok c =>
        leave depth (script depth { st with name := path, args := more } (Text.Utf8.decode c.toBytes))
      | .error _ =>
        { st.put st.err (bytes (st.name ++ ": 0: cannot open " ++ path ++ ": No such file\n")) with
          status := 2 }
    | [] => st
  (behaviour st, st.files)

/-- A tool as a program. -/
def toolProgram (t : Tool) : Program := fun l place files =>
  let st := start l place files
  let st := afterTool st (t ⟨files, place, l.vars, []⟩ l.args)
  (behaviour st, st.files)

/-- The variables that every program finds, with some of them set anew. -/
def variablesWith (own : List (String × String)) : List (String × String) :=
  own.foldl (fun vs (name, value) =>
    if vs.any fun v => v.1 = name then vs.map fun v => if v.1 = name then (name, value) else v
    else vs ++ [(name, value)]) [("PATH", ":".intercalate programPlaces)]

/-- The programs of a machine by path, and by name as well when the variables say where they are. -/
def programs (vars : List (String × String)) : List (String × Program) :=
  let known := ("sh", shell) :: toolNames.filterMap fun s => (tool? s).map fun t => (s, toolProgram t)
  (if finds vars then known else []) ++
    programPlaces.flatMap fun place => known.map fun (s, p) => (place ++ "/" ++ s, p)

/-- A machine on which a program has been asked for with some variables. -/
def machineFor (m : Machine) (vars : List (String × String)) : Machine :=
  { m with programs := programs vars, files := furnish m.files [] devices }

end RepoAudit.Rehearsal.Shell
