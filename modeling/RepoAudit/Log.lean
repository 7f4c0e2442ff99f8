import RepoAudit.Redaction
import RepoAudit.Decimal
import RepoAudit.Text.Capitals
import RepoAudit.Text.Quoted

/-!
# Redacted logging

Records pass the filters of each handler before they are written.

* `Entry.message` — the text of a record: its template with the arguments filled in, in whatever way.
* `Entry.redacted` — a record without the secrets of a filter.
* `Record` — the records whose templates `fill` fills in.
* `Root.configure` — a root logger set up so that each handler has exactly one redacting filter; a
  logger without handlers first gets one, and a level.
* `Root.emit` — what the handlers write for a text.
-/

namespace RepoAudit.Log

/-! ### Records -/

/-- An argument of a template. -/
inductive Arg where
  | text (s : String)
  | int (n : Int)
  deriving Repr, DecidableEq

/-- Why a template cannot be filled in. -/
inductive FormatError where
  | wrongArguments
  | incomplete
  | unsupported (c : Char) (index : Nat)
  deriving Repr, DecidableEq

/-- A character as a message names it: beyond printable ASCII a question mark stands for it. -/
def namedChar (c : Char) : Char := if 31 ≤ c.toNat ∧ c.toNat ≤ 126 then c else '?'

/-- The reason in words; a mismatch with the arguments has none. -/
def FormatError.message : FormatError → String
  | .wrongArguments => ""
  | .incomplete => "incomplete format"
  | .unsupported c i =>
    "unsupported format character '" ++ String.singleton (namedChar c) ++ "' (0x" ++
      String.ofList (Nat.toDigits 16 c.toNat) ++ ") at index " ++ toString i

/-- The text of an argument. -/
def Arg.shown : Arg → List Char
  | .text s => s.toList
  | .int n => (Decimal.renderInt n).toList

/-- Fills in a template from position `index` on: `%s` takes any argument, `%d` an integer, and `%%`
is a percent sign. Every argument must be taken. -/
def fill (index : Nat) (args : List Arg) : List Char → Except FormatError (List Char)
  | [] => if args.isEmpty then .ok [] else .error .wrongArguments
  | '%' :: [] => .error .incomplete
  | '%' :: c :: r =>
    if c = '%' then (fill (index + 2) args r).map ('%' :: ·)
    else if c = 's' then
      match args with
      | [] => .error .wrongArguments
      | a :: rest => (fill (index + 2) rest r).map (a.shown ++ ·)
    else if c = 'd' then
      match args with
      | .int n :: rest => (fill (index + 2) rest r).map ((Arg.int n).shown ++ ·)
      | _ => .error .wrongArguments
    else if args.isEmpty then .error .wrongArguments
    else .error (.unsupported c (index + 1))
  | c :: r => (fill (index + 1) args r).map (c :: ·)

/-- A log record with arguments of any kind; without arguments its template is taken as it stands. -/
structure Entry (α : Type) where
  template : String
  args : List α := []
  deriving Repr, DecidableEq

namespace Entry

variable {α ε : Type}

/-- The text of a record whose template is filled in by `format`. -/
def message (format : String → List α → Except ε String) (e : Entry α) : Except ε String :=
  if e.args.isEmpty then .ok e.template else format e.template e.args

/-- A record without the secrets: a text that changes becomes the template, without arguments. -/
def redacted (format : String → List α → Except ε String) (secrets : List String) (e : Entry α) :
    Except ε (Entry α) :=
  match e.message format with
  | .error x => .error x
  | .ok m =>
    let hidden := Redaction.redact m secrets
    .ok (if hidden = m then e else ⟨hidden, []⟩)

end Entry

/-- A log record with arguments for `%s` and `%d`. -/
abbrev Record := Entry Arg

/-- A template with its arguments filled in. -/
def formatted (template : String) (args : List Arg) : Except FormatError String :=
  (fill 0 args template.toList).map String.ofList

/-- The text of a record. -/
def Record.message (r : Record) : Except FormatError String := Entry.message formatted r

/-- A record without the secrets. -/
def redactRecord (secrets : List String) (r : Record) : Except FormatError Record :=
  r.redacted formatted secrets

/-! ### The root logger -/

/-- The importance of a record, and the least importance that a logger passes on. -/
inductive Level where
  | notset
  | debug
  | info
  | warning
  | error
  | critical
  deriving Repr, DecidableEq

namespace Level

/-- Levels in order of importance. -/
def rank : Level → Nat
  | .notset => 0
  | .debug => 10
  | .info => 20
  | .warning => 30
  | .error => 40
  | .critical => 50

/-- The written name. -/
def name : Level → String
  | .notset => "NOTSET"
  | .debug => "DEBUG"
  | .info => "INFO"
  | .warning => "WARNING"
  | .error => "ERROR"
  | .critical => "CRITICAL"

/-- The names of levels, two of them second names. -/
def names : List (String × Level) :=
  [("NOTSET", .notset), ("DEBUG", .debug), ("INFO", .info), ("WARNING", .warning),
    ("WARN", .warning), ("ERROR", .error), ("CRITICAL", .critical), ("FATAL", .critical)]

end Level

/-- A constant of the logging library: a level, a text or a table, known by how it is shown. -/
inductive Constant where
  | level (l : Level)
  | text (s : String)
  | table (shown : String)
  deriving Repr, DecidableEq

namespace Constant

/-- The layout of lines when none is given. -/
def plainLayout : String := "%(levelname)s:%(name)s:%(message)s"

/-- The layouts of lines, one for each style of template. -/
def layouts : String :=
  "\x7b'%': (<class 'logging.PercentStyle'>, '" ++ plainLayout ++
    "'), '\x7b': (<class 'logging.StrFormatStyle'>, '" ++
    "\x7blevelname\x7d:\x7bname\x7d:\x7bmessage\x7d" ++
    "'), '$': (<class 'logging.StringTemplateStyle'>, '" ++
    "$\x7blevelname\x7d:$\x7bname\x7d:$\x7bmessage\x7d" ++ "')\x7d"

/-- The constants whose names are written in capitals: the levels and two others. -/
def named : List (String × Constant) :=
  Level.names.map (fun (name, l) => (name, .level l)) ++
    [("BASIC_FORMAT", .text plainLayout), ("_STYLES", .table layouts)]

end Constant

/-- Why a constant cannot be the level of a logger: a text that names no level, or a constant that is
neither a text nor a level. -/
inductive LevelError where
  | unknown (name : String)
  | unfit (shown : String)
  deriving Repr, DecidableEq

/-- The reason in words. -/
def LevelError.message : LevelError → String
  | .unknown name => "Unknown level: " ++ Text.quote name
  | .unfit shown => "Level not an integer or a valid string: " ++ shown

/-- The level that a constant stands for; a text may name one. -/
def Constant.level? : Constant → Except LevelError Level
  | .level l => .ok l
  | .text s =>
    match Level.names.lookup s with
    | some l => .ok l
    | none => .error (.unknown s)
  | .table shown => .error (.unfit shown)

/-- The level that a text chooses: its capital form is looked up among the constants, and what is not
found there chooses `info`. -/
def Level.choose (s : String) : Except LevelError Level :=
  ((Constant.named.lookup (Text.capitals s)).getD (.level .info)).level?

/-- A filter on a handler: a redacting one with its secrets, or any other. -/
inductive Filter where
  | redacting (secrets : List String)
  | other (name : String)
  deriving Repr, DecidableEq

/-- Whether a filter redacts. -/
def Filter.isRedacting : Filter → Bool
  | .redacting _ => true
  | .other _ => false

/-- A handler is known by its filters, in order. -/
structure Handler where
  filters : List Filter := []
  deriving Repr, DecidableEq

/-- The root logger. -/
structure Root where
  level : Level := .warning
  handlers : List Handler := []
  deriving Repr, DecidableEq

/-- The secrets that a filter keeps. -/
def keptSecrets (secrets : List String) : List String := secrets.filter (· ≠ "")

namespace Handler

/-- Takes a filter off a handler, where it is first found. -/
def removeFilter (f : Filter) (h : Handler) : Handler := ⟨h.filters.erase f⟩

/-- Puts a filter at the end of a handler, unless it is there already. -/
def addFilter (f : Filter) (h : Handler) : Handler :=
  if f ∈ h.filters then h else ⟨h.filters ++ [f]⟩

/-- Takes the redacting filters off a handler, in a walk over its filters as they were. -/
def dropRedactors (h : Handler) : Handler :=
  h.filters.foldl (fun h f => if f.isRedacting then h.removeFilter f else h) h

/-- A handler whose redacting filters are exchanged for one new one, at the end. -/
def withRedactor (secrets : List String) (h : Handler) : Handler :=
  h.dropRedactors.addFilter (.redacting (keptSecrets secrets))

end Handler

namespace Root

/-- Gives a logger without handlers one handler, without filters, and a level. A text that chooses no
level leaves the handler behind. -/
def prepare (level : String) (r : Root) : Except LevelError Unit × Root :=
  if r.handlers.isEmpty then
    let r := { r with handlers := [{}] }
    match Level.choose level with
    | .ok l => (.ok (), { r with level := l })
    | .error e => (.error e, r)
  else (.ok (), r)

/-- Prepares a logger and gives every handler one redacting filter. -/
def configure (level : String) (secrets : List String) (r : Root) :
    Except LevelError Unit × Root :=
  match r.prepare level with
  | (.ok (), r) => (.ok (), { r with handlers := r.handlers.map (Handler.withRedactor secrets) })
  | (.error e, r) => (.error e, r)

end Root

/-! ### Writing -/

variable {α ε : Type}

/-- A record after a filter; filters that do not redact leave it as it is. -/
def Filter.pass (format : String → List α → Except ε String) (f : Filter) (e : Entry α) :
    Except ε (Entry α) :=
  match f with
  | .redacting secrets => e.redacted format secrets
  | .other _ => .ok e

/-- A record after the filters of a handler. -/
def Handler.pass (format : String → List α → Except ε String) (h : Handler) (e : Entry α) :
    Except ε (Entry α) :=
  h.filters.foldlM (fun e f => f.pass format e) e

/-- The line that a handler writes for a record of a named logger. -/
def line (logger : String) (level : Level) (message : String) : String :=
  logger ++ " - " ++ level.name ++ " - " ++ message ++ "\n"

/-- The lines that handlers write for one record. Each of them is handed the record as the filters of
the one before left it. A record that a filter cannot fill in goes no further. -/
def lines (logger : String) (level : Level) (rec : Record) : List Handler → List String
  | [] => []
  | h :: rest =>
    match h.pass formatted rec with
    | .error _ => []
    | .ok rec =>
      match Record.message rec with
      | .ok m => line logger level m :: lines logger level rec rest
      | .error _ => lines logger level rec rest

/-- What the handlers write for a text logged by a named logger: nothing without a level, or when the
level is below the root's. -/
def Root.emit (r : Root) (logger : String) (level : Level) (text : String) : List String :=
  if level = .notset ∨ level.rank < r.level.rank then []
  else lines logger level ⟨text, []⟩ r.handlers

end RepoAudit.Log
