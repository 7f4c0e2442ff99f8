/-!
# Lines of a text

* `isLineBreak` — the characters that end a line.
* `lines` — the lines of a text; a break at the very end opens no further line, and a carriage
  return followed by a line feed is one break.
* `unifyNewlines` — each carriage return, alone or before a line feed, read as one line feed.
-/

namespace RepoAudit.Text

/-- A character that ends a line. -/
def isLineBreak (c : Char) : Bool :=
  let n := c.toNat
  (10 ≤ n && n ≤ 13) || (28 ≤ n && n ≤ 30) || n == 0x85 || n == 0x2028 || n == 0x2029

/-- The scan behind `lines`: `line` holds the open line and `done` the closed ones, both last
first. -/
def linesScan (line : List Char) (done : List (List Char)) : List Char → List (List Char)
  | [] => if line.isEmpty then done.reverse else (line.reverse :: done).reverse
  | '\r' :: '\n' :: r => linesScan [] (line.reverse :: done) r
  | c :: r =>
    if isLineBreak c then linesScan [] (line.reverse :: done) r
    else linesScan (c :: line) done r

/-- The lines of a text, without their breaks. -/
def lines (s : List Char) : List (List Char) := linesScan [] [] s

/-- Reads both spellings of a line end that hold a carriage return as a line feed. -/
def unifyScan (done : List Char) : List Char → List Char
  | [] => done.reverse
  | '\r' :: '\n' :: r => unifyScan ('\n' :: done) r
  | '\r' :: r => unifyScan ('\n' :: done) r
  | c :: r => unifyScan (c :: done) r

/-- The text with every line end written as a line feed. -/
def unifyNewlines (s : String) : String := String.ofList (unifyScan [] s.toList)

end RepoAudit.Text
