import RepoAudit.Json.Value
import RepoAudit.Text.Surrogate

/-!
# Reading JSON

One document, read character by character with an explicit stack of open arrays and objects, so
that what has been read of a text depends on that part of the text alone.

* `Dialect` — how deep containers may nest and whether an unpaired surrogate escape is read.
* `number?` — the number that a bare word spells.
* `step` — what one character does to the state of reading.
* `parse?` — the value of a text that is exactly one document between blanks.
-/

namespace RepoAudit.Json

/-- What a reader allows beyond the grammar. -/
structure Dialect where
  maxDepth : Option Nat
  loneSurrogates : Bool

/-- Tool reports may nest freely, and an unpaired surrogate escape is read as the half that it is. -/
def Dialect.report : Dialect := ⟨none, true⟩

/-- A review may nest two hundred containers and holds no unpaired surrogate escape. -/
def Dialect.review : Dialect := ⟨some 200, false⟩

/-! ### Bare words -/

/-- The digits at the start of a text and the rest. -/
def spanDigits (cs : List Char) : List Char × List Char :=
  (cs.takeWhile Decimal.isDigit, cs.dropWhile Decimal.isDigit)

/-- An optional fraction part and the rest; `none` when a point has no digits after it. -/
def fraction? : List Char → Option (Option (List Char) × List Char)
  | '.' :: r =>
    let (ds, r) := spanDigits r
    if ds.isEmpty then none else some (some ds, r)
  | cs => some (none, cs)

/-- An optional exponent that must end the word; `none` when it has no digits or something
follows. -/
def exponent? : List Char → Option (Option Int)
  | [] => some none
  | c :: r =>
    if c = 'e' ∨ c = 'E' then
      let (negative, r) :=
        match r with
        | '-' :: r => (true, r)
        | '+' :: r => (false, r)
        | r => (false, r)
      let (ds, r) := spanDigits r
      if ds.isEmpty || !r.isEmpty then none
      else
        let n : Int := Decimal.natOfDigits ds
        some (some (if negative then -n else n))
    else none

/-- The number that a word spells: digits without a leading zero, an optional fraction part and an
optional exponent. It is an integer exactly when it has neither. -/
def number? (word : List Char) : Option Value :=
  let (negative, r) :=
    match word with
    | '-' :: r => (true, r)
    | r => (false, r)
  let (ds, r) := spanDigits r
  if ds.isEmpty || (ds.head? == some '0' && ds != ['0']) then none
  else
    match fraction? r with
    | none => none
    | some (frac, r) =>
      match exponent? r with
      | none => none
      | some ex =>
        if frac.isNone && ex.isNone then
          let n : Int := Decimal.natOfDigits ds
          some (.int (if negative then -n else n))
        else
          let fs := frac.getD []
          some (.real (.finite ⟨negative, Decimal.natOfDigits (ds ++ fs), ex.getD 0 - fs.length⟩))

/-- The value of a bare word: a constant or a number. -/
def word? (word : List Char) : Option Value :=
  if word = "null".toList then some .null
  else if word = "true".toList then some (.bool true)
  else if word = "false".toList then some (.bool false)
  else if word = "NaN".toList then some (.real .notANumber)
  else if word = "Infinity".toList then some (.real (.infinity false))
  else if word = "-Infinity".toList then some (.real (.infinity true))
  else number? word

/-- The characters of bare words. -/
def isWordChar (c : Char) : Bool :=
  ('0' ≤ c && c ≤ '9') || ('a' ≤ c && c ≤ 'z') || ('A' ≤ c && c ≤ 'Z') ||
    c == '+' || c == '-' || c == '.'

/-! ### Open containers -/

/-- What may stand next in an open array. -/
inductive ArrayNeeds where
  | itemOrEnd
  | item
  | commaOrEnd
  deriving DecidableEq

/-- What may stand next in an open object. -/
inductive ObjectNeeds where
  | keyOrEnd
  | key
  | colon (key : String)
  | value (key : String)
  | commaOrEnd

/-- An open container: an array with its items so far, last first, or an object. -/
inductive Frame where
  | array (items : List Value) (needs : ArrayNeeds)
  | object (fields : Fields) (needs : ObjectNeeds)

/-- The containers that are open, innermost first, and the document once it is complete. -/
structure Builder where
  frames : List Frame
  root : Option Value

namespace Builder

/-- Hands a complete value to the innermost open container, or makes it the document. -/
def put (v : Value) : Builder → Option Builder
  | ⟨[], none⟩ => some ⟨[], some v⟩
  | ⟨[], some _⟩ => none
  | ⟨.array items .itemOrEnd :: fs, root⟩ => some ⟨.array (v :: items) .commaOrEnd :: fs, root⟩
  | ⟨.array items .item :: fs, root⟩ => some ⟨.array (v :: items) .commaOrEnd :: fs, root⟩
  | ⟨.object fields (.value k) :: fs, root⟩ =>
    some ⟨.object (Fields.set k v fields) .commaOrEnd :: fs, root⟩
  | ⟨.object fields .keyOrEnd :: fs, root⟩ =>
    match v with
    | .string k => some ⟨.object fields (.colon k) :: fs, root⟩
    | _ => none
  | ⟨.object fields .key :: fs, root⟩ =>
    match v with
    | .string k => some ⟨.object fields (.colon k) :: fs, root⟩
    | _ => none
  | _ => none

/-- Opens a container, unless as many are open as the dialect allows. -/
def push (d : Dialect) (f : Frame) (b : Builder) : Option Builder :=
  match d.maxDepth with
  | some n => if n ≤ b.frames.length then none else some ⟨f :: b.frames, b.root⟩
  | none => some ⟨f :: b.frames, b.root⟩

/-- Closes the innermost array. -/
def endArray : Builder → Option Builder
  | ⟨.array items needs :: fs, root⟩ =>
    if needs = .item then none else put (.array items.reverse) ⟨fs, root⟩
  | _ => none

/-- Closes the innermost object. -/
def endObject : Builder → Option Builder
  | ⟨.object fields .keyOrEnd :: fs, root⟩ => put (.object fields) ⟨fs, root⟩
  | ⟨.object fields .commaOrEnd :: fs, root⟩ => put (.object fields) ⟨fs, root⟩
  | _ => none

/-- Reads a comma between items or fields. -/
def comma : Builder → Option Builder
  | ⟨.array items .commaOrEnd :: fs, root⟩ => some ⟨.array items .item :: fs, root⟩
  | ⟨.object fields .commaOrEnd :: fs, root⟩ => some ⟨.object fields .key :: fs, root⟩
  | _ => none

/-- Reads the colon after a key. -/
def colon : Builder → Option Builder
  | ⟨.object fields (.colon k) :: fs, root⟩ => some ⟨.object fields (.value k) :: fs, root⟩
  | _ => none

end Builder

/-! ### Characters -/

/-- Where the reader stands: between tokens, in a bare word, in a string, after a backslash, or in
the hexadecimal digits of an escape. Strings are kept last character first; `high` is the leading
half of a surrogate pair that waits for its other half. -/
inductive Mode where
  | between
  | word (cs : List Char)
  | string (cs : List Char) (high : Option Nat)
  | escape (cs : List Char) (high : Option Nat)
  | hex (cs : List Char) (high : Option Nat) (value left : Nat)

/-- The state of reading a document. -/
structure State where
  mode : Mode
  builder : Builder

/-- Before the first character. -/
def State.start : State := ⟨.between, ⟨[], none⟩⟩

/-- The value of a hexadecimal digit. -/
def hexValue? (c : Char) : Option Nat :=
  if '0' ≤ c && c ≤ '9' then some (c.toNat - 48)
  else if 'a' ≤ c && c ≤ 'f' then some (c.toNat - 87)
  else if 'A' ≤ c && c ≤ 'F' then some (c.toNat - 55)
  else none

/-- The string so far once no other half can follow: a waiting half stays one if the dialect reads
it. -/
def settle (d : Dialect) (cs : List Char) : Option Nat → Option (List Char)
  | none => some cs
  | some h => if d.loneSurrogates then some (Text.halfPair h :: cs) else none

/-- Adds the code unit of an escape to a string. -/
def addUnit (d : Dialect) (cs : List Char) (high : Option Nat) (u : Nat) : Option Mode :=
  if 0xDC00 ≤ u ∧ u ≤ 0xDFFF then
    match high with
    | some h => some (.string (Char.ofNat (0x10000 + (h - 0xD800) * 0x400 + (u - 0xDC00)) :: cs) none)
    | none => if d.loneSurrogates then some (.string (Text.halfPair u :: cs) none) else none
  else
    match settle d cs high with
    | none => none
    | some cs =>
      if 0xD800 ≤ u ∧ u ≤ 0xDBFF then some (.string cs (some u))
      else some (.string (Char.ofNat u :: cs) none)

/-- The character that a backslash and a letter stand for. -/
def escaped? (c : Char) : Option Char :=
  if c = '"' ∨ c = '\\' ∨ c = '/' then some c
  else if c = 'b' then some '\x08'
  else if c = 'f' then some '\x0c'
  else if c = 'n' then some '\n'
  else if c = 'r' then some '\r'
  else if c = 't' then some '\t'
  else none

/-- Reads a character between tokens. -/
def betweenStep (d : Dialect) (b : Builder) (c : Char) : Option State :=
  if c = ' ' ∨ c = '\t' ∨ c = '\n' ∨ c = '\r' then some ⟨.between, b⟩
  else if c = '[' then (b.push d (.array [] .itemOrEnd)).map (⟨.between, ·⟩)
  else if c = '\x7b' then (b.push d (.object [] .keyOrEnd)).map (⟨.between, ·⟩)
  else if c = ']' then b.endArray.map (⟨.between, ·⟩)
  else if c = '\x7d' then b.endObject.map (⟨.between, ·⟩)
  else if c = ',' then b.comma.map (⟨.between, ·⟩)
  else if c = ':' then b.colon.map (⟨.between, ·⟩)
  else if c = '"' then some ⟨.string [] none, b⟩
  else if isWordChar c then some ⟨.word [c], b⟩
  else none

/-- Ends a bare word, kept last character first. -/
def endWord (cs : List Char) (b : Builder) : Option Builder :=
  match word? cs.reverse with
  | none => none
  | some v => b.put v

/-- What one character does to the state of reading; `none` when the text cannot be a document. -/
def step (d : Dialect) (st : State) (c : Char) : Option State :=
  match st.mode with
  | .between => betweenStep d st.builder c
  | .word cs =>
    if isWordChar c then some ⟨.word (c :: cs), st.builder⟩
    else
      match endWord cs st.builder with
      | none => none
      | some b => betweenStep d b c
  | .string cs high =>
    if c = '\\' then some ⟨.escape cs high, st.builder⟩
    else
      match settle d cs high with
      | none => none
      | some cs =>
        if c = '"' then (st.builder.put (.string (String.ofList cs.reverse))).map (⟨.between, ·⟩)
        else if c.toNat < 0x20 then none
        else some ⟨.string (c :: cs) none, st.builder⟩
  | .escape cs high =>
    if c = 'u' then some ⟨.hex cs high 0 4, st.builder⟩
    else
      match settle d cs high, escaped? c with
      | some cs, some e => some ⟨.string (e :: cs) none, st.builder⟩
      | _, _ => none
  | .hex cs high value left =>
    match hexValue? c with
    | none => none
    | some h =>
      if left ≤ 1 then (addUnit d cs high (value * 16 + h)).map (⟨·, st.builder⟩)
      else some ⟨.hex cs high (value * 16 + h) (left - 1), st.builder⟩

/-- Reads a whole text from a state. -/
def run (d : Dialect) : State → List Char → Option State
  | st, [] => some st
  | st, c :: r =>
    match step d st c with
    | none => none
    | some st => run d st r

/-- The document, if it is complete and everything opened is closed. -/
def finish (st : State) : Option Value :=
  match st.mode with
  | .between => if st.builder.frames.isEmpty then st.builder.root else none
  | .word cs =>
    match endWord cs st.builder with
    | none => none
    | some b => if b.frames.isEmpty then b.root else none
  | _ => none

/-- The value of a text that is one document between blanks. -/
def parse? (d : Dialect) (s : List Char) : Option Value :=
  match run d .start s with
  | none => none
  | some st => finish st

/-- Reading two texts one after the other is reading their join. -/
theorem run_append (d : Dialect) (st : State) (s t : List Char) :
    run d st (s ++ t) = (run d st s).bind fun st => run d st t := by
  induction s generalizing st with
  | nil => rfl
  | cons c r ih =>
    simp only [List.cons_append, run]
    split
    · rfl
    · exact ih _

end RepoAudit.Json
