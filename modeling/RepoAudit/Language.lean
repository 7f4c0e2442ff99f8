import RepoAudit.Files.Walk
import RepoAudit.Text.Lowercase

/-!
# Languages of a repository

* `Language` — the languages told apart by file extension.
* `Language.tally` — how many of some files belong to each language, most files first.
* `Language.detect` — the same for all files below the directory that a path leads to, or why they are
  not all found.
-/

namespace RepoAudit

/-- A programming language. -/
inductive Language where
  | go
  | javascript
  | typescript
  | python
  | java
  | ruby
  | php
  | c
  | cpp
  | rust
  | unknown
  deriving Repr, DecidableEq, Inhabited

/-- Which language a file extension with its point stands for. -/
abbrev ExtensionMap := List (String × Language)

namespace Language

/-- The written name. -/
def name : Language → String
  | .go => "go"
  | .javascript => "javascript"
  | .typescript => "typescript"
  | .python => "python"
  | .java => "java"
  | .ruby => "ruby"
  | .php => "php"
  | .c => "c"
  | .cpp => "cpp"
  | .rust => "rust"
  | .unknown => "unknown"

/-- The languages that are told apart. -/
def supported : List Language :=
  [.go, .javascript, .typescript, .python, .java, .ruby, .php, .c, .cpp, .rust]

/-- The language of a written name. -/
def ofName? (s : String) : Option Language := (supported ++ [Language.unknown]).find? fun l => l.name = s

/-- The extensions of each language. -/
def extensions : ExtensionMap :=
  [(".go", .go),
    (".js", .javascript), (".jsx", .javascript), (".mjs", .javascript), (".cjs", .javascript),
    (".ts", .typescript), (".tsx", .typescript), (".mts", .typescript), (".cts", .typescript),
    (".py", .python), (".pyw", .python), (".pyi", .python),
    (".java", .java),
    (".rb", .ruby), (".rake", .ruby), (".gemspec", .ruby),
    (".php", .php), (".phtml", .php), (".php3", .php), (".php4", .php), (".php5", .php),
    (".php7", .php), (".phps", .php),
    (".c", .c), (".h", .c),
    (".cpp", .cpp), (".cxx", .cpp), (".cc", .cpp), (".hpp", .cpp), (".hxx", .cpp), (".hh", .cpp),
    (".c++", .cpp), (".h++", .cpp),
    (".rs", .rust)]

/-- Directories that hold dependencies, version control, editor settings or build output. -/
def skippedDirectories : List String :=
  [".git", "node_modules", "vendor", ".venv", "venv", "__pycache__", ".cache", "dist", "build",
    "target", ".idea", ".vscode", ".kiro"]

/-- Whether a directory of that name is left out. -/
def isSkipped (directory : String) : Bool := skippedDirectories.contains directory

/-- The language of an extension, with or without its point and in any letter case. -/
def ofExtension (map : ExtensionMap) (ext : String) : Language :=
  let e := Text.lower ext
  (map.lookup (if e.toList.head? = some '.' then e else "." ++ e)).getD .unknown

/-- The language of a file by its name, when it has a known extension. -/
def ofFileName? (map : ExtensionMap) (fileName : String) : Option Language :=
  let e := Text.lower (Path.extension fileName)
  if e = "" then none else map.lookup e

/-- A language with the number of its files and of all counted files. -/
structure Count where
  language : Language
  files : Nat
  total : Nat
  deriving Repr, DecidableEq

/-- The share of the counted files, in percent. -/
def Count.percentage (c : Count) : Float :=
  if c.total = 0 then 0 else c.files.toFloat / c.total.toFloat * 100

/-- Adds one file to the count of its language. -/
def addFile (l : Language) : List (Language × Nat) → List (Language × Nat)
  | [] => [(l, 1)]
  | (l', n) :: rest => if l' = l then (l', n + 1) :: rest else (l', n) :: addFile l rest

/-- Whether a count stands before another: more files first, equal ones by name. -/
def Count.before (a b : Count) : Bool :=
  if a.files = b.files then Text.le a.language.name b.language.name
  else decide (b.files < a.files)

/-- The languages of some files in order. -/
def tally (ls : List Language) : List Count :=
  ((ls.foldl (fun counts l => addFile l counts) []).map fun (l, n) =>
    (⟨l, n, ls.length⟩ : Count)).mergeSort Count.before

/-- Why the languages of a directory are not known: it is not there, or a walk through it does not come
to its end. -/
inductive DetectError where
  | missing
  | stopped (stop : WalkStop)
  deriving Repr, DecidableEq

/-- The counts of the languages of what a walk has found. -/
def counts (map : ExtensionMap) (w : Walk) : List Count :=
  tally ((w.visits.flatMap Visit.names).filterMap (ofFileName? map))

/-- The counts of the languages below the directory that a path leads to. A directory that cannot be
listed ends the search. -/
def detect (map : ExtensionMap) (t : FileTree) (cwd : Location) (levels : Nat) (path : String) :
    Except DetectError (List Count) :=
  if t.leadsToDirectory cwd path then
    let w := t.walk cwd (fun d => !isSkipped d) true levels path
    match w.stop with
    | some stop => .error (.stopped stop)
    | none => .ok (counts map w)
  else .error .missing

end Language

end RepoAudit
