/-!
# Commands of a shell

What a shell script says, for scripts that only rehearse a program.

* `Piece`, `Word`, `Redirect`, `Command` — the parts of a script.
* `tokens?` — the words and operators of a text.
* `Command.parse?` — the command that a text spells.
-/

namespace RepoAudit.Rehearsal.Shell

/-- A part of a word: plain text, the value of a variable, the same with a word that takes its place
when it is missing, the value of an arithmetic expression, or what commands print. -/
inductive Piece where
  | text (cs : List Char) (quoted : Bool)
  | variable (name : String) (quoted : Bool)
  | fallback (name : String) (whenEmpty : Bool) (word : List Char) (quoted : Bool)
  | arithmetic (expression : List Char) (quoted : Bool)
  | output (commands : List Char) (quoted : Bool)
  deriving Repr, DecidableEq

/-- A word is put together from pieces. -/
abbrev Word := List Piece

/-- Where a stream of a command comes from or goes. -/
inductive Redirect where
  | source (w : Word)
  | target (stream : Nat) (append : Bool) (w : Word)
  | same (stream : Nat) (w : Word)
  deriving Repr, DecidableEq

/-- A command. -/
inductive Command where
  | nothing
  | simple (words : List Word) (redirects : List Redirect)
  | pipe (a b : Command)
  | negate (a : Command)
  | sequence (a b : Command)
  | both (a b : Command)
  | either (a b : Command)
  | background (a : Command)
  | subshell (a : Command) (redirects : List Redirect)
  | group (a : Command) (redirects : List Redirect)
  | choice (test a b : Command)
  | loop (wanted : Bool) (test body : Command)
  | each (name : String) (words : List Word) (body : Command)
  deriving Repr

/-- A token of a script. -/
inductive Token where
  | word (w : Word)
  | redirect (stream : Option Nat) (kind : String)
  | operator (s : String)
  deriving Repr, DecidableEq

/-! ### Words -/

/-- A character that ends a word. -/
def isMeta (c : Char) : Bool := " \t\n;&|<>()".toList.contains c

/-- A character of a name. -/
def isNameChar (c : Char) : Bool := c.isAlphanum || c == '_'

/-- Whether a text is a name of a variable. -/
def isName (cs : List Char) : Bool :=
  cs.all isNameChar && cs.head?.any fun c => !c.isDigit

/-- The text before the bracket that closes an open one, and the text after it. Brackets inside
quotes do not count. -/
def untilClosed (opening closing : Char) :
    Nat → Option Char → List Char → List Char → Option (List Char × List Char)
  | _, _, _, [] => none
  | depth, some q, done, c :: r =>
    untilClosed opening closing depth (if c = q then none else some q) (c :: done) r
  | depth, none, done, c :: r =>
    if c = closing then
      match depth with
      | 0 => some (done.reverse, r)
      | depth + 1 => untilClosed opening closing depth none (c :: done) r
    else
      untilClosed opening closing (if c = opening then depth + 1 else depth)
        (if c = '\'' ∨ c = '"' then some c else none) (c :: done) r

/-- The piece that a dollar sign starts, and the rest. -/
def dollar (quoted : Bool) (cs : List Char) : Option (Piece × List Char) :=
  match cs with
  | '(' :: r =>
    (untilClosed '(' ')' 0 none [] r).map fun (inside, r) =>
      if inside.head? = some '(' ∧ inside.getLast? = some ')' then
        (.arithmetic (inside.drop 1).dropLast quoted, r)
      else (.output inside quoted, r)
  | '\x7b' :: r =>
    (untilClosed '\x7b' '\x7d' 0 none [] r).map fun (inside, r) =>
      let name := inside.takeWhile fun c => isNameChar c || "?$#@*".toList.contains c
      match inside.drop name.length with
      | ':' :: '-' :: word => (.fallback (String.ofList name) true word quoted, r)
      | '-' :: word => (.fallback (String.ofList name) false word quoted, r)
      | _ => (.variable (String.ofList name) quoted, r)
  | c :: r =>
    if "?$!#@*".toList.contains c || c.isDigit then some (.variable (String.ofList [c]) quoted, r)
    else
      let name := cs.takeWhile isNameChar
      if name.isEmpty then some (.text ['$'] quoted, cs)
      else some (.variable (String.ofList name) quoted, cs.drop name.length)
  | [] => some (.text ['$'] quoted, [])

/-- The pieces of a word, and the rest. Between double quotes they end at the closing one. -/
def pieces : Nat → Bool → List Char → Option (Word × List Char)
  | 0, _, _ => none
  | n + 1, quoted, cs =>
    let next (p : Piece) (r : List Char) : Option (Word × List Char) :=
      (pieces n quoted r).map fun (ps, r) => (p :: ps, r)
    match cs with
    | [] => if quoted then none else some ([], [])
    | c :: r =>
      if quoted && c = '"' then some ([], r)
      else if !quoted && isMeta c then some ([], cs)
      else if c = '$' then
        match dollar quoted r with
        | some (p, r) => next p r
        | none => none
      else if c = '\x60' then
        let inside := r.takeWhile (· != '\x60')
        match r.drop inside.length with
        | _ :: r => next (.output inside quoted) r
        | [] => none
      else if c = '\\' then
        match r with
        | [] => some ([.text ['\\'] true], [])
        | '\n' :: r => pieces n quoted r
        | d :: r =>
          next (.text (if quoted && !"$`\"\\".toList.contains d then ['\\', d] else [d]) true) r
      else if !quoted && c = '\'' then
        let inside := r.takeWhile (· != '\'')
        match r.drop inside.length with
        | _ :: r => next (.text inside true) r
        | [] => none
      else if !quoted && c = '"' then
        match pieces n true r with
        | none => none
        | some (inside, r) =>
          (pieces n false r).map fun (ps, r) => (.text [] true :: (inside ++ ps), r)
      else next (.text [c] quoted) r

/-- The characters of a word that is plain text without quotes. -/
def plain? (w : Word) : Option String :=
  if w.all fun p => match p with | .text _ false => true | _ => false then
    some (String.join (w.map fun p => match p with | .text cs _ => String.ofList cs | _ => ""))
  else none

/-- The variable and the value that a word assigns. -/
def assignment? (w : Word) : Option (String × Word) :=
  let leading := w.takeWhile fun p => match p with | .text cs false => cs != ['='] | _ => false
  let name := leading.flatMap fun p => match p with | .text cs _ => cs | _ => []
  match w.drop leading.length with
  | .text ['='] false :: value => if isName name then some (String.ofList name, value) else none
  | _ => none

/-! ### Tokens -/

/-- The longest operator at the start of a text. -/
def operator? (cs : List Char) : Option (String × List Char) :=
  (["&&", "||", ";;", ";", "&", "|", "(", ")", "\n"].find? fun s => s.toList.isPrefixOf cs).map
    fun s => (s, cs.drop s.length)

/-- The redirection that a text starts with, and the rest. -/
def redirection? (cs : List Char) : Option (Token × List Char) :=
  let digits := cs.takeWhile Char.isDigit
  let stream := if digits.isEmpty then none else (String.ofList digits).toNat?
  let r := cs.drop digits.length
  ([">>", ">&", "<&", ">|", ">", "<"].find? fun s => s.toList.isPrefixOf r).map fun s =>
    (.redirect stream s, r.drop s.length)

/-- The tokens of a text; none when a quote or a bracket stays open. -/
def tokens? : Nat → List Char → Option (List Token)
  | 0, _ => none
  | n + 1, cs =>
    match cs with
    | [] => some []
    | c :: r =>
      if c = ' ' ∨ c = '\t' then tokens? n r
      else if c = '#' then tokens? n (r.dropWhile (· != '\n'))
      else
        match redirection? cs, operator? cs with
        | some (t, r), _ => (tokens? n r).map (t :: ·)
        | none, some (s, r) => (tokens? n r).map (.operator s :: ·)
        | none, none =>
          match pieces (cs.length + 1) false cs with
          | some (w, r) => (tokens? n r).map (.word w :: ·)
          | none => none

/-! ### Commands -/

/-- The words that have a meaning where a command may start. -/
def reserved : List String :=
  ["if", "then", "elif", "else", "fi", "while", "until", "do", "done", "for", "in", "\x7b", "\x7d",
    "!"]

/-- The reserved word at the start of some tokens. -/
def reserved? : List Token → Option String
  | .word w :: _ => (plain? w).filter reserved.contains
  | _ => none

/-- Tokens without the separators at their start. -/
def skipSeparators (ts : List Token) : List Token :=
  ts.dropWhile fun t => t = .operator "\n" || t = .operator ";"

/-- The redirections at the start of some tokens, and the rest. -/
def redirects? : Nat → List Token → Option (List Redirect × List Token)
  | 0, _ => none
  | n + 1, .redirect stream kind :: .word w :: r =>
    let one : Redirect := match kind with
      | "<" => .source w
      | "<&" => .source []
      | ">&" => .same (stream.getD 1) w
      | ">>" => .target (stream.getD 1) true w
      | _ => .target (stream.getD 1) false w
    (redirects? n r).map fun (rs, r) => (one :: rs, r)
  | _, .redirect .. :: _ => none
  | _, ts => some ([], ts)

/-- The words and redirections of a simple command, and the rest. -/
def simple? : Nat → List Token → Option (List Word × List Redirect × List Token)
  | 0, _ => none
  | n + 1, .word w :: r => (simple? n r).map fun (ws, rs, r) => (w :: ws, rs, r)
  | n + 1, ts@(.redirect .. :: _) =>
    match redirects? (n + 1) ts with
    | some (rs, r) => (simple? n r).map fun (ws, more, r) => (ws, rs ++ more, r)
    | none => none
  | _, ts => some ([], [], ts)

/-- The words up to a separator, and the rest. -/
def wordsUntil : List Token → List Word × List Token
  | .word w :: r => let (ws, r) := wordsUntil r; (w :: ws, r)
  | ts => ([], ts)

/-- The rest of some tokens after a reserved word. -/
def expect? (word : String) (ts : List Token) : Option (List Token) :=
  let ts := skipSeparators ts
  if reserved? ts = some word then some (ts.drop 1) else none

mutual

/-- A list of commands, up to the end or a token that cannot start one. -/
def list? : Nat → List Token → Option (Command × List Token)
  | 0, _ => none
  | n + 1, ts =>
    let ts := skipSeparators ts
    match ts with
    | [] | .operator ")" :: _ | .operator ";;" :: _ => some (.nothing, ts)
    | _ =>
      if (reserved? ts).any ["then", "elif", "else", "fi", "do", "done", "\x7d"].contains then
        some (.nothing, ts)
      else
        match chain? n ts with
        | none => none
        | some (a, .operator "&" :: r) =>
          (list? n r).map fun (b, r) => (.sequence (.background a) b, r)
        | some (a, .operator ";" :: r) | some (a, .operator "\n" :: r) =>
          (list? n r).map fun (b, r) => (.sequence a b, r)
        | some (a, r) => some (a, r)

/-- Pipelines with `&&` and `||` between them. -/
def chain? : Nat → List Token → Option (Command × List Token)
  | 0, _ => none
  | n + 1, ts =>
    match pipeline? n ts with
    | none => none
    | some (a, r) => links? n a r

/-- What follows a pipeline after `&&` or `||`. -/
def links? : Nat → Command → List Token → Option (Command × List Token)
  | 0, _, _ => none
  | n + 1, a, .operator "&&" :: r =>
    match pipeline? n (skipSeparators r) with
    | some (b, r) => links? n (.both a b) r
    | none => none
  | n + 1, a, .operator "||" :: r =>
    match pipeline? n (skipSeparators r) with
    | some (b, r) => links? n (.either a b) r
    | none => none
  | _, a, r => some (a, r)

/-- Commands with pipes between them. -/
def pipeline? : Nat → List Token → Option (Command × List Token)
  | 0, _ => none
  | n + 1, ts =>
    if reserved? ts = some "!" then (pipeline? n (ts.drop 1)).map fun (a, r) => (.negate a, r)
    else
      match command? n ts with
      | some (a, .operator "|" :: r) =>
        (pipeline? n (skipSeparators r)).map fun (b, r) => (.pipe a b, r)
      | x => x

/-- One command. -/
def command? : Nat → List Token → Option (Command × List Token)
  | 0, _ => none
  | n + 1, ts =>
    match ts, reserved? ts with
    | .operator "(" :: r, _ =>
      match list? n r with
      | some (a, .operator ")" :: r) => (redirects? n r).map fun (rs, r) => (.subshell a rs, r)
      | _ => none
    | _, some "\x7b" => do
      let (a, r) ← list? n (ts.drop 1)
      let (rs, r) ← redirects? n (← expect? "\x7d" r)
      return (.group a rs, r)
    | _, some "if" => branches? n (ts.drop 1)
    | _, some "while" => loop? n true (ts.drop 1)
    | _, some "until" => loop? n false (ts.drop 1)
    | _, some "for" =>
      match ts.drop 1 with
      | .word name :: r => do
        let (ws, r) := wordsUntil (← expect? "in" r)
        let (body, r) ← list? n (← expect? "do" r)
        let (rs, r) ← redirects? n (← expect? "done" r)
        return (.group (.each (← plain? name) ws body) rs, r)
      | _ => none
    | _, some _ => none
    | _, none =>
      match simple? (n + 1) ts with
      | some ([], [], _) => none
      | some (ws, rs, r) => some (.simple ws rs, r)
      | none => none

/-- The tests and branches of a choice. -/
def branches? : Nat → List Token → Option (Command × List Token)
  | 0, _ => none
  | n + 1, ts => do
    let (test, r) ← list? n ts
    let (a, r) ← list? n (← expect? "then" r)
    let r := skipSeparators r
    match reserved? r with
    | some "fi" => return (.choice test a .nothing, r.drop 1)
    | some "elif" =>
      let (b, r) ← branches? n (r.drop 1)
      return (.choice test a b, r)
    | some "else" =>
      let (b, r) ← list? n (r.drop 1)
      return (.choice test a b, ← expect? "fi" r)
    | _ => none

/-- The test and the body of a loop. -/
def loop? : Nat → Bool → List Token → Option (Command × List Token)
  | 0, _, _ => none
  | n + 1, wanted, ts => do
    let (test, r) ← list? n ts
    let (body, r) ← list? n (← expect? "do" r)
    let (rs, r) ← redirects? n (← expect? "done" r)
    return (.group (.loop wanted test body) rs, r)

end

/-- The command that a text spells. -/
def Command.parse? (cs : List Char) : Option Command := do
  let ts ← tokens? (cs.length + 1) cs
  match list? (8 * ts.length + 16) ts with
  | some (c, []) => some c
  | _ => none

end RepoAudit.Rehearsal.Shell
