/-!
# Arithmetic of a shell

Integer expressions as they stand inside scripts.

* `Arithmetic.tokens?` — the numbers, names and operators of a text.
* `Arithmetic.value?` — the value of a text, operators of higher rank taken first and those of one rank
  from left to right.
-/

namespace RepoAudit.Rehearsal.Shell.Arithmetic

/-- A token of an expression. -/
inductive Token where
  | number (n : Int)
  | name (s : String)
  | operator (s : String)
  deriving Repr, DecidableEq

/-- The operators, those of two characters before those of one. -/
def operators : List String :=
  ["&&", "||", "==", "!=", "<=", ">=", "<", ">", "+", "-", "*", "/", "%", "(", ")", "!"]

/-- The operators between two operands by rank, the lowest rank first. -/
def ranks : List (List String) :=
  [["||"], ["&&"], ["==", "!="], ["<=", ">=", "<", ">"], ["+", "-"], ["*", "/", "%"]]

/-- A character of a number or a name. -/
def isWordChar (c : Char) : Bool := c.isAlphanum || c == '_'

/-- The worth of a digit; letters go on after nine. -/
def digitWorth (c : Char) : Nat :=
  if c.isDigit then c.toNat - 48 else if c.isAlpha then c.toLower.toNat - 87 else 99

/-- The number that digits are in a base. -/
def inBase? (base : Nat) (cs : List Char) : Option Token :=
  if !cs.isEmpty && cs.all (digitWorth · < base) then
    some (.number (cs.foldl (fun n c => base * n + digitWorth c) 0 : Nat))
  else none

/-- The token of a word: sixteen is the base after `0x`, eight after another zero, else ten. -/
def wordToken? (cs : List Char) : Option Token :=
  match cs with
  | '0' :: 'x' :: r => inBase? 16 r
  | '0' :: 'X' :: r => inBase? 16 r
  | '0' :: r => inBase? 8 ('0' :: r)
  | c :: r => if c.isDigit then inBase? 10 (c :: r) else some (.name (String.ofList (c :: r)))
  | [] => none

/-- The tokens of a text; none when something else stands in it. -/
def tokens? : Nat → List Char → Option (List Token)
  | 0, _ => none
  | _, [] => some []
  | n + 1, c :: r =>
    if c.isWhitespace then tokens? n r
    else if isWordChar c then
      match wordToken? ((c :: r).takeWhile isWordChar) with
      | some t => (tokens? n ((c :: r).dropWhile isWordChar)).map (t :: ·)
      | none => none
    else
      match operators.find? fun s => s.toList.isPrefixOf (c :: r) with
      | some s => (tokens? n ((c :: r).drop s.length)).map (.operator s :: ·)
      | none => none

/-- A truth value as a number. -/
def ofBool (b : Bool) : Int := if b then 1 else 0

/-- What an operator makes of two operands; there is no quotient by zero. -/
def combined? (operator : String) (x y : Int) : Option Int :=
  match operator with
  | "+" => some (x + y)
  | "-" => some (x - y)
  | "*" => some (x * y)
  | "/" => if y = 0 then none else some (x.tdiv y)
  | "%" => if y = 0 then none else some (x.tmod y)
  | "==" => some (ofBool (x = y))
  | "!=" => some (ofBool (x ≠ y))
  | "<=" => some (ofBool (x ≤ y))
  | ">=" => some (ofBool (y ≤ x))
  | "<" => some (ofBool (x < y))
  | ">" => some (ofBool (y < x))
  | "&&" => some (ofBool (x ≠ 0 ∧ y ≠ 0))
  | "||" => some (ofBool (x ≠ 0 ∨ y ≠ 0))
  | _ => none

mutual

/-- The value of operands with operators of some ranks between them, and the rest. -/
def ranked (lookup : String → Int) : Nat → List (List String) → List Token →
    Option (Int × List Token)
  | 0, _, _ => none
  | n + 1, [], ts => operand lookup n ts
  | n + 1, rank :: higher, ts =>
    match ranked lookup n higher ts with
    | some (x, r) => continued lookup n rank higher x r
    | none => none

/-- A value continued by operators of one rank. -/
def continued (lookup : String → Int) : Nat → List String → List (List String) → Int →
    List Token → Option (Int × List Token)
  | 0, _, _, _, _ => none
  | n + 1, rank, higher, x, .operator s :: r =>
    if rank.contains s then
      match ranked lookup n higher r with
      | some (y, r) =>
        match combined? s x y with
        | some z => continued lookup n rank higher z r
        | none => none
      | none => none
    else some (x, .operator s :: r)
  | _, _, _, x, r => some (x, r)

/-- A number, a name, a signed operand or an expression in brackets. -/
def operand (lookup : String → Int) : Nat → List Token → Option (Int × List Token)
  | 0, _ => none
  | _, .number x :: r => some (x, r)
  | _, .name s :: r => some (lookup s, r)
  | n + 1, .operator "(" :: r =>
    match ranked lookup n ranks r with
    | some (x, .operator ")" :: r) => some (x, r)
    | _ => none
  | n + 1, .operator "-" :: r => (operand lookup n r).map fun (x, r) => (-x, r)
  | n + 1, .operator "+" :: r => operand lookup n r
  | n + 1, .operator "!" :: r => (operand lookup n r).map fun (x, r) => (ofBool (x = 0), r)
  | _, _ => none

end

/-- The value of a text in which names stand for numbers; none when it is no expression. -/
def value? (lookup : String → Int) (cs : List Char) : Option Int := do
  let ts ← tokens? (cs.length + 1) cs
  match ranked lookup (16 * ts.length + 16) ranks ts with
  | some (x, []) => some x
  | _ => none

end RepoAudit.Rehearsal.Shell.Arithmetic
