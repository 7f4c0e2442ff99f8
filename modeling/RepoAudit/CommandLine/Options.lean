import RepoAudit.Text.Numeral

/-!
# Options and operands

The arguments of a program are options and operands. An option is known by names of one letter after
one hyphen, which may be put together, or by long names after two, which may be shortened as long as
they stay unique; a value may follow after `=` or as the next argument.

* `OptionRule`, `Grammar` — the options that there are, and which operands are taken.
* `Grammar.sort?` — every argument as an operand, a separator or an option.
* `Grammar.read?` — what the arguments of a program say, or why they say nothing.
-/

namespace RepoAudit.CommandLine

/-- Which operands are taken: none, one, or one with everything after it. -/
inductive Operands where
  | none
  | one
  | rest
  deriving Repr, DecidableEq

/-- What the options of the program are for. -/
inductive Flag where
  | help
  | verbose
  | host
  | port
  | json
  deriving Repr, DecidableEq

/-- An option: its names, whether it takes a value, and which values are accepted. -/
structure OptionRule where
  flag : Flag
  names : List String
  takesValue : Bool := false
  accepts : String → Bool := fun _ => true

/-- The options and operands of a program. -/
structure Grammar where
  options : List OptionRule
  operands : Operands

/-- Why arguments say nothing: help is asked for, or they are not understood. -/
inductive Stop where
  | help
  | misuse
  deriving Repr, DecidableEq

/-- The exit code of a program that stops at its arguments. -/
def Stop.exitCode : Stop → Int
  | .help => 0
  | .misuse => 2

/-- A value that is attached to the name of an option, and whether an equals sign stands between. -/
structure Attached where
  marked : Bool
  value : List Char
  deriving Repr, DecidableEq

/-- An argument by its kind. An option that no rule knows is `unknown`. -/
inductive Argument where
  | operand (s : String)
  | separator
  | unknown (s : String)
  | option (r : OptionRule) (name : String) (attached : Option Attached)

/-- What has been read: options with their values, operands, and whether anything was left over. -/
structure Reading where
  options : List (Flag × String) := []
  operands : List String := []
  leftOver : Bool := false
  deriving Repr, DecidableEq

namespace Grammar

/-! ### Kinds of arguments -/

/-- All names of options with their rules. -/
def names (g : Grammar) : List (String × OptionRule) :=
  g.options.flatMap fun r => r.names.map fun n => (n, r)

/-- The rule of a name. -/
def rule? (g : Grammar) (name : String) : Option OptionRule := g.names.lookup name

/-- A text up to its first equals sign, and what follows it. -/
def splitAtEquals (cs : List Char) : List Char × Option (List Char) :=
  (cs.takeWhile (· != '='), if '=' ∈ cs then some ((cs.dropWhile (· != '=')).drop 1) else none)

/-- A negative number, which is an operand. -/
def isNegativeNumber : List Char → Bool
  | '-' :: r =>
    let isDigit (c : Char) : Bool := (Text.digitValue? c).isSome
    let r := if r.getLast? = some '\n' then r.dropLast else r
    let whole := r.takeWhile isDigit
    match r.drop whole.length with
    | [] => !whole.isEmpty
    | '.' :: fraction => !fraction.isEmpty && fraction.all isDigit
    | _ => false
  | _ => false

/-- The options that an argument which is no full name may stand for. -/
def candidates (g : Grammar) (cs : List Char) : List Argument :=
  match cs with
  | '-' :: '-' :: _ =>
    let (start, value) := splitAtEquals cs
    g.names.filterMap fun (n, r) =>
      if start.isPrefixOf n.toList then some (.option r n (value.map (⟨true, ·⟩))) else none
  | '-' :: c :: rest =>
    g.names.filterMap fun (n, r) =>
      if n.toList = ['-', c] then some (.option r n (some ⟨false, rest⟩))
      else if cs.isPrefixOf n.toList then some (.option r n none)
      else none
  | _ => []

/-- An argument that starts with a hyphen and is no full name of an option. -/
def sortUnnamed? (g : Grammar) (s : String) : Except Stop Argument :=
  match g.candidates s.toList with
  | [a] => .ok a
  | _ :: _ => .error .misuse
  | [] => .ok (if isNegativeNumber s.toList || s.toList.contains ' ' then .operand s else .unknown s)

/-- The kind of an argument that is no separator. -/
def sortOne? (g : Grammar) (s : String) : Except Stop Argument :=
  match s.toList with
  | '-' :: _ :: _ =>
    match g.rule? s with
    | some r => .ok (.option r s none)
    | none =>
      let (start, value) := splitAtEquals s.toList
      match value, g.rule? (String.ofList start) with
      | some v, some r => .ok (.option r (String.ofList start) (some ⟨true, v⟩))
      | _, _ => g.sortUnnamed? s
  | _ => .ok (.operand s)

/-- The kinds of all arguments; after the first separator there are only operands. -/
def sort? (g : Grammar) : List String → Except Stop (List Argument)
  | [] => .ok []
  | s :: rest =>
    if s = "--" then .ok (.separator :: rest.map .operand)
    else
      match g.sortOne? s, g.sort? rest with
      | .ok a, .ok as => .ok (a :: as)
      | .error e, _ => .error e
      | .ok _, .error e => .error e

/-! ### Options -/

/-- How a bundle of one-letter options ends: with an option that looks for a value in the next
argument, with one that has all it needs, or with a letter that no rule knows. -/
inductive BundleEnd where
  | open (r : OptionRule)
  | closed (r : OptionRule) (value : String)
  | unknown

/-- The options of an argument with something attached to the name: a value, or more one-letter
options. -/
def unbundle? (g : Grammar) (r : OptionRule) (isShort : Bool) (marked : Bool) :
    List Char → Except Stop (List OptionRule × BundleEnd)
  | [] => if r.takesValue then .ok ([], .closed r "") else .error .misuse
  | c :: cs =>
    if r.takesValue then .ok ([], .closed r (String.ofList (c :: cs)))
    else if !isShort || marked || c = '-' then .error .misuse
    else
      match g.rule? (String.ofList ['-', c]) with
      | none => .ok ([r], .unknown)
      | some next =>
        match cs with
        | [] => .ok ([r], .open next)
        | '=' :: cs => (g.unbundle? next true true cs).map fun (rs, e) => (r :: rs, e)
        | d :: cs => (g.unbundle? next true false (d :: cs)).map fun (rs, e) => (r :: rs, e)

/-- Takes an option with its value. Help ends the reading at once, and so does a value that is not
accepted. -/
def take (rd : Reading) (r : OptionRule) (value : String) : Except Stop Reading :=
  if r.flag = .help then .error .help
  else if r.accepts value then .ok { rd with options := rd.options ++ [(r.flag, value)] }
  else .error .misuse

/-- Takes options without values, in order. -/
def takeAll (rd : Reading) (rs : List OptionRule) : Except Stop Reading :=
  rs.foldlM (fun rd r => take rd r "") rd

/-- Whether an option name is of the kind of one letter. -/
def isShortName (name : String) : Bool :=
  match name.toList with
  | '-' :: c :: _ => c != '-'
  | _ => false

/-- Takes an option that may look for its value in the next argument; the answer is what has been
read, and how many arguments have been used for a value. -/
def takeOpen (rd : Reading) (r : OptionRule) (next : Option Argument) :
    Except Stop (Reading × Nat) :=
  if r.takesValue then
    match next with
    | some (.operand v) => (take rd r v).map (·, 1)
    | _ => .error .misuse
  else (take rd r "").map (·, 0)

/-- Takes the options of one argument. -/
def takeArgument (g : Grammar) (rd : Reading) (r : OptionRule) (name : String)
    (attached : Option Attached) (next : Option Argument) : Except Stop (Reading × Nat) :=
  match attached with
  | none => takeOpen rd r next
  | some a =>
    match g.unbundle? r (isShortName name) a.marked a.value with
    | .error e => .error e
    | .ok (rs, .unknown) => (takeAll rd rs).map fun rd => ({ rd with leftOver := true }, 0)
    | .ok (rs, .closed r v) => do return (← take (← takeAll rd rs) r v, 0)
    | .ok (rs, .open r) =>
      if r.takesValue && !(match next with | some (.operand _) => true | _ => false) then
        .error .misuse
      else do takeOpen (← takeAll rd rs) r next

/-! ### Reading -/

/-- Reads sorted arguments, of which as many have been used already as `used` says. `texts` are the
same arguments as they were given, `wanted` says which operands are still taken. -/
def readSorted (g : Grammar) : List Argument → List String → Nat → Operands → Reading →
    Except Stop Reading
  | [], _, _, _, rd => .ok rd
  | _ :: as, texts, used + 1, wanted, rd => g.readSorted as (texts.drop 1) used wanted rd
  | .operand s :: as, texts, 0, wanted, rd =>
    match wanted with
    | .none => g.readSorted as (texts.drop 1) 0 .none { rd with leftOver := true }
    | .one =>
      let used := match as with
        | .separator :: _ => 1
        | _ => 0
      g.readSorted as (texts.drop 1) used .none { rd with operands := rd.operands ++ [s] }
    | .rest => .ok { rd with operands := texts }
  | .separator :: as, texts, 0, wanted, rd =>
    match wanted, as with
    | .one, .operand s :: _ =>
      g.readSorted as (texts.drop 1) 1 .none { rd with operands := rd.operands ++ [s] }
    | .rest, .operand _ :: _ => .ok { rd with operands := texts }
    | _, _ => g.readSorted as (texts.drop 1) 0 wanted { rd with leftOver := true }
  | .unknown _ :: as, texts, 0, wanted, rd =>
    g.readSorted as (texts.drop 1) 0 wanted { rd with leftOver := true }
  | .option r name attached :: as, texts, 0, wanted, rd =>
    match g.takeArgument rd r name attached as.head? with
    | .error e => .error e
    | .ok (rd, used) => g.readSorted as (texts.drop 1) used wanted rd

/-- What arguments say. Operands that must be there are not asked for here. -/
def read? (g : Grammar) (args : List String) : Except Stop Reading :=
  match g.sort? args with
  | .error e => .error e
  | .ok sorted => g.readSorted sorted args 0 g.operands {}

end Grammar

/-- The value of an option that was given last. -/
def Reading.value? (rd : Reading) (f : Flag) : Option String :=
  (rd.options.reverse.lookup f)

/-- Whether an option was given. -/
def Reading.has (rd : Reading) (f : Flag) : Bool := (rd.value? f).isSome

end RepoAudit.CommandLine
