import RepoAudit.Text.CaseTable

/-!
# Lower case

The small form of a text under the full Unicode rules.

* `lowerChar` — the small form of a character that stands by itself.
* `lowercase` — the small form of a text: a capital I with dot becomes two characters, and a
  capital sigma that ends a word becomes the final small sigma.
-/

namespace RepoAudit.Text

/-- Whether a code point lies in one of the ranges. -/
def inRanges (ranges : List (Nat × Nat)) (n : Nat) : Bool :=
  ranges.any fun (low, high) => low ≤ n && n ≤ high

/-- Whether a character has letter case. -/
def isCased (c : Char) : Bool := inRanges casedRanges c.toNat

/-- Whether a search for the neighbouring cased letter passes over a character. -/
def isCaseIgnorable (c : Char) : Bool := inRanges caseIgnorableRanges c.toNat

/-- The run of capitals that holds a code point. -/
def loweringRun? (n : Nat) : Option LoweringRun :=
  loweringRuns.find? fun r => r.first ≤ n && n ≤ r.last && (n - r.first) % r.step == 0

/-- The small form of a character that stands by itself. -/
def lowerChar (c : Char) : Char :=
  if c.toNat < 0x80 then c.toLower
  else
    match loweringRun? c.toNat with
    | some r => Char.ofNat (r.small + (c.toNat - r.first))
    | none => c

/-- Whether the nearest character that case does not ignore is a cased one. -/
def meetsCased (cs : List Char) : Bool :=
  match cs.dropWhile isCaseIgnorable with
  | [] => false
  | c :: _ => isCased c

/-- The small form of a character between the text before it, last character first, and the text
after it. -/
def lowerAt (before : List Char) (c : Char) (after : List Char) : List Char :=
  if c = '\u0130' then ['i', '\u0307']
  else if c = '\u03A3' then
    if meetsCased before && !meetsCased after then ['\u03C2'] else ['\u03C3']
  else [lowerChar c]

/-- The scan behind `lowercase`. -/
def lowerScan (before done : List Char) : List Char → List Char
  | [] => done.reverse
  | c :: after => lowerScan (c :: before) ((lowerAt before c after).reverse ++ done) after

/-- The small form of a text. -/
def lowercase (cs : List Char) : List Char := lowerScan [] [] cs

/-- The small form of a string. -/
def lower (s : String) : String := String.ofList (lowercase s.toList)

end RepoAudit.Text
