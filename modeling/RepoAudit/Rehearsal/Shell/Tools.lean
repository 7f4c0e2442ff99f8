import RepoAudit.Decimal
import RepoAudit.Files.Resolve
import RepoAudit.Text.Order

/-!
# Small tools

Programs that scripts of a shell are made of: they print, read, count and wait.

* `Around` — what a tool finds around it.
* `Done` — what a tool has done.
* `tool?`, `devices` — the tool of a name, and the devices that tools read from.
-/

namespace RepoAudit.Rehearsal.Shell

/-- The bytes of a stream. -/
abbrev Bytes := List UInt8

/-- What a tool finds around it: files, the working directory, its environment and its input. -/
structure Around where
  files : FileTree
  place : Location
  vars : List (String × String) := []
  input : Bytes := []

/-- What a tool has done: what it printed, its exit code, how long it took, what it left of its
input, and whether it would go on for ever. -/
structure Done where
  out : Bytes := []
  err : Bytes := []
  code : Nat := 0
  lasts : Decimal := .ofInt 0
  rest : Bytes := []
  endless : Bool := false

/-- A tool. -/
abbrev Tool := Around → List String → Done

/-- The bytes of a text. -/
def bytes (s : String) : Bytes := Text.Utf8.bytesOf s

/-- A complaint of a tool. -/
def complain (code : Nat) (message : String) : Done := { err := bytes (message ++ "\n"), code := code }

/-- The bytes of a file. -/
def contentOf (a : Around) (path : String) : Except PathError Content := a.files.read a.place path

/-- The lines of a stream, each with the line feed at its end if it has one. -/
def linesOf (bs : Bytes) : List Bytes :=
  let (last, done) := bs.foldl (fun ((line, done) : Bytes × List Bytes) b =>
    if b = 10 then ([], (b :: line).reverse :: done) else (b :: line, done)) ([], [])
  (if last.isEmpty then done else last.reverse :: done).reverse

/-! ### Printing -/

/-- The value of up to `n` octal digits, and the rest. -/
def octal (n : Nat) (cs : List Char) : Nat × List Char :=
  let ds := (cs.take n).takeWhile fun c => '0' ≤ c && c ≤ '7'
  (ds.foldl (fun v c => 8 * v + (c.toNat - 48)) 0, cs.drop ds.length)

/-- The bytes that a letter after a backslash stands for. -/
def escapeLetter? (c : Char) : Option UInt8 :=
  [('a', 7), ('b', 8), ('f', 12), ('n', 10), ('r', 13), ('t', 9), ('v', 11), ('\\', 92)].lookup c

/-- A text whose escapes are read; `\0` may be followed by three octal digits, and after `\c`
nothing more is printed. -/
def unescaped : Nat → List Char → Bytes × Bool
  | 0, _ => ([], false)
  | n + 1, '\\' :: c :: r =>
    if c = 'c' then ([], true)
    else if c = '0' then
      let (v, r) := octal 3 r
      let (bs, stop) := unescaped n r
      (UInt8.ofNat v :: bs, stop)
    else
      let (bs, stop) := unescaped n r
      match escapeLetter? c with
      | some b => (b :: bs, stop)
      | none => (92 :: (Text.Utf8.encode [c] ++ bs), stop)
  | n + 1, c :: r =>
    let (bs, stop) := unescaped n r
    (Text.Utf8.encode [c] ++ bs, stop)
  | _, [] => ([], false)

/-- Prints its arguments; `-n` leaves out the line feed, and `-e` reads escapes. -/
def echo (escapes : Bool) : List String → Done
  | args =>
    let (noNewline, args) := match args with
      | "-n" :: r => (true, r)
      | r => (false, r)
    let (escapes, args) := match args with
      | "-e" :: r => if escapes then (escapes, args) else (true, r)
      | _ => (escapes, args)
    let cs := (String.intercalate " " args).toList
    let (bs, stop) := if escapes then unescaped (cs.length + 1) cs else (Text.Utf8.encode cs, false)
    { out := bs ++ (if noNewline || stop then [] else [10]) }

/-- A text with blanks before or after it up to a width, or zeros before it. -/
def aligned (left zero : Bool) (width : Nat) (cs : List Char) : List Char :=
  let fill := List.replicate (width - cs.length) (if zero && !left then '0' else ' ')
  if left then cs ++ fill else fill ++ cs

/-- A directive of a format: its flags, width, precision and letter. -/
structure Directive where
  left : Bool
  zero : Bool
  width : Nat
  precision : Option Nat
  letter : Char

/-- The directive after a percent sign, and the rest. -/
def directive? (cs : List Char) : Option (Directive × List Char) :=
  let flags := cs.takeWhile fun c => c == '-' || c == '0' || c == '+' || c == ' '
  let r := cs.drop flags.length
  let width := r.takeWhile Char.isDigit
  let r := r.drop width.length
  let (precision, r) := match r with
    | '.' :: r =>
      let ds := r.takeWhile Char.isDigit
      (some (Decimal.natOfDigits ds), r.drop ds.length)
    | r => (none, r)
  match r with
  | c :: r =>
    some (⟨flags.contains '-', flags.contains '0', Decimal.natOfDigits width, precision, c⟩, r)
  | [] => none

/-- The integer of an argument; what is none counts as 0. -/
def integerOf (s : String) : Int := if s = "" then 0 else s.toInt?.getD 0

/-- The bytes of a directive with its argument. -/
def Directive.print (d : Directive) (arg : String) : Bytes :=
  let put (zero : Bool) (cs : List Char) : Bytes := Text.Utf8.encode (aligned d.left zero d.width cs)
  match d.letter with
  | 'd' | 'i' | 'u' => put d.zero (Decimal.renderInt (integerOf arg)).toList
  | 'x' => put d.zero (Nat.toDigits 16 (integerOf arg).toNat)
  | 'X' => put d.zero ((Nat.toDigits 16 (integerOf arg).toNat).map Char.toUpper)
  | 'o' => put d.zero (Nat.toDigits 8 (integerOf arg).toNat)
  | 'c' => put false (arg.toList.take 1)
  | 'b' => (unescaped (arg.length + 1) arg.toList).1
  | _ => put false (match d.precision with | some p => arg.toList.take p | none => arg.toList)

/-- A format printed once; the answer is what is printed and the arguments left. -/
def format : Nat → List Char → List String → Bytes × List String
  | 0, _, args => ([], args)
  | n + 1, cs, args =>
    match cs with
    | [] => ([], args)
    | '%' :: '%' :: r => let (bs, args) := format n r args; (37 :: bs, args)
    | '%' :: r =>
      match directive? r with
      | some (d, r) =>
        let (bs, left) := format n r (args.drop 1)
        (d.print (args.headD "") ++ bs, left)
      | none => ([37], args)
    | '\\' :: c :: r =>
      if '0' ≤ c && c ≤ '7' then
        let (v, r) := octal 3 (c :: r)
        let (bs, args) := format n r args
        (UInt8.ofNat v :: bs, args)
      else
        let (bs, args) := format n r args
        match escapeLetter? c with
        | some b => (b :: bs, args)
        | none => (if c = '"' ∨ c = '\'' then Text.Utf8.encode [c] ++ bs
            else 92 :: (Text.Utf8.encode [c] ++ bs), args)
    | c :: r => let (bs, args) := format n r args; (Text.Utf8.encode [c] ++ bs, args)

/-- A format printed as often as there are arguments for it. -/
def printAll : Nat → List Char → List String → Bytes
  | 0, _, _ => []
  | n + 1, cs, args =>
    let (bs, left) := format (cs.length + 1) cs args
    if left.isEmpty || left.length = args.length then bs else bs ++ printAll n cs left

/-- Prints a format. -/
def printf : List String → Done
  | "--" :: f :: args | f :: args => { out := printAll (args.length + 1) f.toList args }
  | [] => complain 2 "printf: usage: printf format [arg ...]"

/-- The numbers from one to another. -/
def seq (args : List String) : Done :=
  let (first, step, last) := match args.map integerOf with
    | [last] => (1, 1, last)
    | [first, last] => (first, 1, last)
    | first :: step :: last :: _ => (first, step, last)
    | [] => (1, 1, 0)
  let count := if step = 0 then 0 else ((last - first) / step + 1).toNat
  { out := bytes (String.join ((List.range count).map fun (n : Nat) =>
      Decimal.renderInt (first + step * (n : Int)) ++ "\n")) }

/-! ### Reading -/

/-- The most bytes that a file is read to the end for; a longer one goes on for ever. -/
def longest : Nat := 16777216

/-- The bytes of a file, or some of them when it is too long, and whether it is. -/
def sample (c : Content) : Bytes × Bool :=
  if c.size ≤ longest then (c.toBytes, false) else (c.take 65536, true)

/-- What the files of some paths hold one after the other, or the input when there is none. -/
def gathered (name : String) (a : Around) (paths : List String) : Done :=
  if paths.isEmpty then { out := a.input }
  else
    paths.foldl (fun d path =>
      if path = "-" then { d with out := d.out ++ a.input }
      else
        match contentOf a path with
        | .ok c =>
          let (content, long) := sample c
          { d with out := d.out ++ content, endless := d.endless || long }
        | .error e =>
          { d with err := d.err ++ bytes (name ++ ": " ++ path ++ ": " ++ e.reason ++ "\n"), code := 1 })
      { rest := a.input }

/-- The options of a tool, and its other arguments. -/
def splitOptions (args : List String) : List String × List String :=
  args.partition fun s => s.length > 1 && s.startsWith "-"

/-- The first bytes or lines of a file or of the input. -/
def head (a : Around) (args : List String) : Done :=
  let (count, paths) : (Bool × Int) × List String := match args with
    | "-c" :: n :: r => ((true, integerOf n), r)
    | "-n" :: n :: r => ((false, integerOf n), r)
    | s :: r => match s.toList with
      | '-' :: 'c' :: ds => ((true, integerOf (String.ofList ds)), r)
      | '-' :: 'n' :: ds => ((false, integerOf (String.ofList ds)), r)
      | '-' :: ds => ((false, integerOf (String.ofList ds)), r)
      | _ => ((false, 10), s :: r)
    | [] => ((false, 10), [])
  let (inBytes, n) := count
  let first (c : Content) : Bytes :=
    if inBytes then c.take n.toNat else ((linesOf (sample c).1).take n.toNat).flatten
  match paths with
  | [] => { out := first (.bytes a.input) }
  | path :: _ =>
    match contentOf a path with
    | .ok c => { out := first c, rest := a.input }
    | .error e => complain 1 ("head: cannot open '" ++ path ++ "' for reading: " ++ e.reason)

/-- The last bytes or lines of a file or of the input; a count with a plus sign says where they
start. -/
def tail (a : Around) (args : List String) : Done :=
  let (count, paths) : (Bool × String) × List String := match args with
    | "-c" :: n :: r => ((true, n), r)
    | "-n" :: n :: r => ((false, n), r)
    | s :: r => match s.toList with
      | '-' :: 'c' :: ds => ((true, String.ofList ds), r)
      | '-' :: 'n' :: ds => ((false, String.ofList ds), r)
      | '-' :: ds => ((false, String.ofList ds), r)
      | _ => ((false, "10"), s :: r)
    | [] => ((false, "10"), [])
  let (inBytes, n) := count
  let last {α : Type} (xs : List α) : List α :=
    match n.toList with
    | '+' :: ds => xs.drop ((integerOf (String.ofList ds)).toNat - 1)
    | _ => xs.drop (xs.length - (integerOf n).natAbs)
  let d := gathered "tail" a (paths.take 1)
  { d with out := if inBytes then last d.out else (last (linesOf d.out)).flatten }

/-- Lines in order, byte by byte. -/
def sortedLines (a : Around) (args : List String) : Done :=
  let (options, paths) := splitOptions args
  let d := gathered "sort" a paths
  let lines := (linesOf d.out).map fun l => if l.getLast? = some 10 then l.dropLast else l
  let sorted := lines.mergeSort fun x y => !(y.map UInt8.toNat < x.map UInt8.toNat)
  let chosen := if options.contains "-r" then sorted.reverse else sorted
  { d with out := chosen.flatMap (· ++ [10]) }

/-- The members of a set of characters, as `tr` writes them. -/
def members : Nat → List Char → List Char
  | 0, _ => []
  | n + 1, '\\' :: c :: r =>
    if '0' ≤ c && c ≤ '7' then
      let (v, r) := octal 3 (c :: r)
      Char.ofNat v :: members n r
    else Char.ofNat ((escapeLetter? c).getD (UInt8.ofNat c.toNat)).toNat :: members n r
  | n + 1, x :: '-' :: y :: r =>
    (List.range (y.toNat + 1 - x.toNat)).map (fun k => Char.ofNat (x.toNat + k)) ++ members n r
  | n + 1, c :: r => c :: members n r
  | _, [] => []

/-- The input with the characters of one set exchanged for those of another, or left out. -/
def tr (a : Around) (args : List String) : Done :=
  let set (s : String) : List UInt8 :=
    (members (s.length + 1) s.toList).map fun c => UInt8.ofNat c.toNat
  match args with
  | ["-d", s] => let xs := set s; { out := a.input.filter fun b => !xs.contains b }
  | [s, t] =>
    let xs := set s
    let ys := set t
    let swap (b : UInt8) : UInt8 :=
      match xs.findIdx? (· == b) with
      | some n => (ys[n]?).getD (ys.getLast?.getD b)
      | none => b
    { out := a.input.map swap }
  | _ => complain 1 "tr: missing operand"

/-- Whether some bytes stand somewhere in a line. -/
def isWithin (p : Bytes) : Bytes → Bool
  | [] => p.isEmpty
  | b :: line => p.isPrefixOf (b :: line) || isWithin p line

/-- Whether a line matches a pattern, whose first and last character may tie it to the ends. -/
def matchesLine (pattern line : Bytes) : Bool :=
  let start := pattern.head? = some 94
  let p := if start then pattern.drop 1 else pattern
  let finish := p.getLast? = some 36
  let p := if finish then p.dropLast else p
  if start && finish then line == p
  else if start then p.isPrefixOf line
  else if finish then p.isSuffixOf line
  else isWithin p line

/-- The lines that match a pattern. -/
def grep (a : Around) (args : List String) : Done :=
  let (options, operands) := splitOptions args
  let letters := options.flatMap fun s => s.toList.drop 1
  match operands with
  | [] => complain 2 "Usage: grep [OPTION]... PATTERNS [FILE]..."
  | pattern :: paths =>
    let d := gathered "grep" a paths
    let lines := (linesOf d.out).map fun l => if l.getLast? = some 10 then l.dropLast else l
    let found := lines.filter fun l => matchesLine (bytes pattern) l != letters.contains 'v'
    let out := if letters.contains 'q' then []
      else if letters.contains 'c' then bytes (toString found.length ++ "\n")
      else found.flatMap (· ++ [10])
    { d with out := out, code := if d.code ≠ 0 then 2 else if found.isEmpty then 1 else 0 }

/-- How many bytes, lines or words there are. -/
def wc (a : Around) (args : List String) : Done :=
  let (options, paths) := splitOptions args
  let d := gathered "wc" a paths
  let isBlank (b : UInt8) : Bool := b = 32 || (9 ≤ b && b ≤ 13)
  let words := (d.out.foldl (fun ((n, inside) : Nat × Bool) b =>
    if isBlank b then (n, false) else if inside then (n, true) else (n + 1, true)) (0, false)).1
  let count := match options with
    | "-l" :: _ => (d.out.filter (· == 10)).length
    | "-w" :: _ => words
    | _ => d.out.length
  let name := match paths with
    | [path] => " " ++ path
    | _ => ""
  { d with out := bytes (toString count ++ name ++ "\n") }

/-- The names in a directory. -/
def ls (a : Around) (args : List String) : Done :=
  let (options, paths) := splitOptions args
  let has (c : Char) : Bool := options.any fun s => s.toList.contains c
  let listing (loc : Location) : Bytes :=
    let names := (a.files.namesIn loc).filter fun s => has 'a' || has 'A' || !s.startsWith "."
    bytes (String.join ((Text.sort (names ++ if has 'a' then [".", ".."] else [])).map (· ++ "\n")))
  (if paths.isEmpty then ["."] else paths).foldl (fun d path =>
    match a.files.locate a.place true path with
    | .ok loc =>
      match a.files.entryAt? loc with
      | some .directory => { d with out := d.out ++ listing loc }
      | some _ => { d with out := d.out ++ bytes (path ++ "\n") }
      | none => d
    | .error e =>
      { d with
        err := d.err ++ bytes ("ls: cannot access '" ++ path ++ "': " ++ e.reason ++ "\n")
        code := 2 }) { rest := a.input }

/-! ### Waiting and testing -/

/-- The number of seconds that a text names. -/
def secondsOf (s : String) : Decimal :=
  let cs := s.toList.filter fun c => c.isDigit || c == '.'
  let whole := cs.takeWhile Char.isDigit
  let fraction := (cs.drop whole.length).filter Char.isDigit
  ⟨false, Decimal.natOfDigits (whole ++ fraction), -fraction.length⟩

/-- Waits for some time. -/
def sleep (a : Around) (args : List String) : Done :=
  if args.isEmpty then complain 1 "sleep: missing operand"
  else { lasts := args.foldl (fun t s => t.add (secondsOf s)) (.ofInt 0), rest := a.input }

/-- Whether a test holds. -/
def holdsTest (a : Around) : List String → Bool
  | "!" :: r => !holdsTest a r
  | [] => false
  | [s] => s ≠ ""
  | ["-n", s] => s ≠ ""
  | ["-z", s] => s = ""
  | [op, path] =>
    match a.files.locate a.place true path with
    | .ok loc =>
      match op, a.files.entryAt? loc with
      | "-d", e => e = some .directory
      | "-f", some (.file _) => true
      | "-e", some _ | "-r", some _ => true
      | "-s", some (.file c) => 0 < c.size
      | _, _ => false
    | .error _ => false
  | [x, op, y] =>
    let m := integerOf x
    let n := integerOf y
    match op with
    | "=" => x = y
    | "!=" => x ≠ y
    | "-eq" => m = n
    | "-ne" => m ≠ n
    | "-lt" => m < n
    | "-le" => m ≤ n
    | "-gt" => n < m
    | "-ge" => n ≤ m
    | _ => false
  | _ => false

/-- A test as an exit code. -/
def test (a : Around) (args : List String) : Done :=
  { code := if holdsTest a args then 0 else 1, rest := a.input }

/-! ### Names -/

/-- The tool of a name. -/
def tool? (name : String) : Option Tool :=
  let plain (f : List String → Done) : Tool := fun a args => { f args with rest := a.input }
  match name with
  | "true" | ":" => some (plain fun _ => {})
  | "false" => some (plain fun _ => { code := 1 })
  | "echo" => some (plain (echo false))
  | "printf" => some (plain printf)
  | "seq" => some (plain seq)
  | "yes" => some fun _ args =>
      { out := (List.replicate 20000 (bytes (args.headD "y" ++ "\n"))).flatten, endless := true }
  | "cat" => some (gathered "cat")
  | "head" => some head
  | "tail" => some tail
  | "sort" => some sortedLines
  | "tr" => some tr
  | "grep" => some grep
  | "wc" => some wc
  | "ls" => some ls
  | "pwd" => some fun a _ => { out := bytes (Location.toPath a.place ++ "\n"), rest := a.input }
  | "sleep" => some sleep
  | "test" => some test
  | "[" => some fun a args => test a args.dropLast
  | "env" | "printenv" => some fun a args =>
      let shown := match args with
        | name :: _ => (a.vars.lookup name).toList
        | [] => a.vars.map fun (k, v) => k ++ "=" ++ v
      { out := bytes (String.join (shown.map (· ++ "\n"))), rest := a.input
        code := if shown.isEmpty && !args.isEmpty then 1 else 0 }
  | _ => none

/-- The devices that tools read from. -/
def devices : List (String × Entry) :=
  [("dev/null", .file (.zeros 0)), ("dev/zero", .file (.zeros (2 * longest)))]

/-- The names of the tools that are part of the shell itself. -/
def ownTools : List String := ["true", ":", "false", "echo", "printf", "pwd", "test", "["]

/-- The names of all tools. -/
def toolNames : List String :=
  ["true", "false", "echo", "printf", "seq", "yes", "cat", "head", "tail", "sort", "tr", "grep", "wc", "ls", "pwd",
    "sleep", "test", "[", "env", "printenv"]

end RepoAudit.Rehearsal.Shell
