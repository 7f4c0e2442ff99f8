import Mathlib.Tactic.ByContra
import RepoAudit.Json.Reader

/-!
# What a character does to the reading of a document

Each step of the reader taken apart once, so that what holds along a whole text is shown by looking at
four ways to go on between tokens and at two ways to end a value.

* `IsGap` — the blanks that may stand between tokens;
* `structural` — what a bracket, a comma or a colon does to the open containers;
* `Frame.Takes`, `Frame.Passes`, `Frame.Closes` — what an open container does with a value, with a comma
  or a colon, and at its end; `put_cases`, `structural_cases` — all that these can do to a stack of them;
* `betweenStep_cases`, `step_word_cases`, `step_string_cases`, `step_escape_cases`, `step_hex_cases` —
  all that a step can do in each mode;
* `Mode.isInside` — whether the reader stands inside a string; `step_outside_cases`,
  `step_inside_cases` — all that a step can do outside and inside of it;
* `word?_cases`, `number?_cases` — which words have a value.
-/

namespace RepoAudit.Json

variable {d : Dialect} {b b' : Builder} {st st' : State} {c : Char} {cs cs' : List Char} {v : Value}
  {high : Option Nat} {f f' : Frame}

/-- The blanks that may stand between tokens. -/
def IsGap (c : Char) : Prop := c = ' ' ∨ c = '\t' ∨ c = '\n' ∨ c = '\r'

instance (c : Char) : Decidable (IsGap c) := by
  unfold IsGap
  infer_instance

/-- The characters that open, close or separate. -/
def structuralChars : List Char := ['[', '\x7b', ']', '\x7d', ',', ':']

/-- What such a character does to the open containers; every other one is refused here. -/
def structural (d : Dialect) (b : Builder) (c : Char) : Option Builder :=
  if c = '[' then b.push d (.array [] .itemOrEnd)
  else if c = '\x7b' then b.push d (.object [] .keyOrEnd)
  else if c = ']' then b.endArray
  else if c = '\x7d' then b.endObject
  else if c = ',' then b.comma
  else if c = ':' then b.colon
  else none

/-- An open container takes a value: as an item, as the value of a field, or as the key of one. -/
inductive Frame.Takes (v : Value) : Frame → Frame → Prop where
  | item (items : List Value) (needs : ArrayNeeds) :
    Takes v (.array items needs) (.array (v :: items) .commaOrEnd)
  | field (fields : Fields) (key : String) :
    Takes v (.object fields (.value key)) (.object (Fields.set key v fields) .commaOrEnd)
  | key (fields : Fields) (needs : ObjectNeeds) (key : String) (hneeds : needs = .keyOrEnd ∨ needs = .key)
    (hv : v = .string key) : Takes v (.object fields needs) (.object fields (.colon key))

/-- An open container passes a comma or a colon. -/
inductive Frame.Passes : Frame → Frame → Prop where
  | item (items : List Value) : Passes (.array items .commaOrEnd) (.array items .item)
  | field (fields : Fields) : Passes (.object fields .commaOrEnd) (.object fields .key)
  | colon (fields : Fields) (key : String) :
    Passes (.object fields (.colon key)) (.object fields (.value key))

/-- The value that an open container is once it ends. -/
inductive Frame.Closes : Frame → Value → Prop where
  | array (items : List Value) (needs : ArrayNeeds) : Closes (.array items needs) (.array items.reverse)
  | object (fields : Fields) (needs : ObjectNeeds) (hneeds : needs = .keyOrEnd ∨ needs = .commaOrEnd) :
    Closes (.object fields needs) (.object fields)

/-- A container in which nothing has been read. -/
inductive Frame.IsFresh : Char → Frame → Prop where
  | array : IsFresh '[' (.array [] .itemOrEnd)
  | object : IsFresh '\x7b' (.object [] .keyOrEnd)

/-- Whether the reader stands inside a string. -/
def Mode.isInside : Mode → Bool
  | .between => false
  | .word _ => false
  | .string .. => true
  | .escape .. => true
  | .hex .. => true

/-! ### Open containers -/

/-- A complete value becomes the document, or the innermost container takes it. -/
theorem put_cases (h : b.put v = some b') :
    (b = ⟨[], none⟩ ∧ b' = ⟨[], some v⟩) ∨
      ∃ f f' fs, b = ⟨f :: fs, b.root⟩ ∧ b' = ⟨f' :: fs, b.root⟩ ∧ f.Takes v f' := by
  unfold Builder.put at h
  split at h
  · exact .inl ⟨rfl, (Option.some.inj h).symm⟩
  · cases h
  · exact .inr ⟨_, _, _, rfl, (Option.some.inj h).symm, .item _ _⟩
  · exact .inr ⟨_, _, _, rfl, (Option.some.inj h).symm, .item _ _⟩
  · exact .inr ⟨_, _, _, rfl, (Option.some.inj h).symm, .field _ _⟩
  · split at h
    · exact .inr ⟨_, _, _, rfl, (Option.some.inj h).symm, .key _ _ _ (.inl rfl) rfl⟩
    · cases h
  · split at h
    · exact .inr ⟨_, _, _, rfl, (Option.some.inj h).symm, .key _ _ _ (.inr rfl) rfl⟩
    · cases h
  · cases h

theorem push_eq (h : b.push d f = some b') : b' = ⟨f :: b.frames, b.root⟩ := by
  rw [Builder.push] at h
  split at h
  · split at h
    · cases h
    · exact (Option.some.inj h).symm
  · exact (Option.some.inj h).symm

theorem endArray_cases (h : b.endArray = some b') :
    ∃ f fs v, b = ⟨f :: fs, b.root⟩ ∧ f.Closes v ∧ Builder.put v ⟨fs, b.root⟩ = some b' := by
  unfold Builder.endArray at h
  split at h
  · split at h
    · cases h
    · exact ⟨_, _, _, rfl, .array _ _, h⟩
  · cases h

theorem endObject_cases (h : b.endObject = some b') :
    ∃ f fs v, b = ⟨f :: fs, b.root⟩ ∧ f.Closes v ∧ Builder.put v ⟨fs, b.root⟩ = some b' := by
  unfold Builder.endObject at h
  split at h
  · exact ⟨_, _, _, rfl, .object _ _ (.inl rfl), h⟩
  · exact ⟨_, _, _, rfl, .object _ _ (.inr rfl), h⟩
  · cases h

theorem comma_cases (h : b.comma = some b') :
    ∃ f f' fs, b = ⟨f :: fs, b.root⟩ ∧ b' = ⟨f' :: fs, b.root⟩ ∧ f.Passes f' := by
  unfold Builder.comma at h
  split at h
  · exact ⟨_, _, _, rfl, (Option.some.inj h).symm, .item _⟩
  · exact ⟨_, _, _, rfl, (Option.some.inj h).symm, .field _⟩
  · cases h

theorem colon_cases (h : b.colon = some b') :
    ∃ f f' fs, b = ⟨f :: fs, b.root⟩ ∧ b' = ⟨f' :: fs, b.root⟩ ∧ f.Passes f' := by
  unfold Builder.colon at h
  split at h
  · exact ⟨_, _, _, rfl, (Option.some.inj h).symm, .colon _ _⟩
  · cases h

/-- All that a bracket, a comma or a colon can do: open a container, end the innermost one and hand it
on as a value, or be passed by it. -/
theorem structural_cases (h : structural d b c = some b') :
    (∃ f, f.IsFresh c ∧ b' = ⟨f :: b.frames, b.root⟩) ∨
      (∃ f fs v, b = ⟨f :: fs, b.root⟩ ∧ f.Closes v ∧ Builder.put v ⟨fs, b.root⟩ = some b') ∨
      ∃ f f' fs, b = ⟨f :: fs, b.root⟩ ∧ b' = ⟨f' :: fs, b.root⟩ ∧ f.Passes f' := by
  unfold structural at h
  split at h
  · next hc => exact .inl ⟨_, hc ▸ .array, push_eq h⟩
  split at h
  · next hc => exact .inl ⟨_, hc ▸ .object, push_eq h⟩
  split at h
  · exact .inr (.inl (endArray_cases h))
  split at h
  · exact .inr (.inl (endObject_cases h))
  split at h
  · exact .inr (.inr (comma_cases h))
  split at h
  · exact .inr (.inr (colon_cases h))
  · cases h

/-! ### Between tokens -/

theorem mem_structuralChars_iff : c ∈ structuralChars ↔
    c = '[' ∨ c = '\x7b' ∨ c = ']' ∨ c = '\x7d' ∨ c = ',' ∨ c = ':' := by
  simp only [structuralChars, List.mem_cons, List.not_mem_nil, or_false]

theorem mem_of_structural (h : structural d b c = some b') : c ∈ structuralChars := by
  rw [structural] at h
  by_contra hnot
  simp only [mem_structuralChars_iff, not_or] at hnot
  obtain ⟨h1, h2, h3, h4, h5, h6⟩ := hnot
  rw [if_neg h1, if_neg h2, if_neg h3, if_neg h4, if_neg h5, if_neg h6] at h
  cases h

theorem betweenStep_structural (h : c ∈ structuralChars) :
    betweenStep d b c = (structural d b c).map (⟨.between, ·⟩) := by
  rcases mem_structuralChars_iff.mp h with rfl | rfl | rfl | rfl | rfl | rfl <;> rfl

theorem betweenStep_gap (h : IsGap c) (d : Dialect) (b : Builder) :
    betweenStep d b c = some ⟨.between, b⟩ := by
  rcases h with rfl | rfl | rfl | rfl <;> rfl

/-- All that a character between tokens can do. -/
theorem betweenStep_cases (h : betweenStep d b c = some st) :
    (IsGap c ∧ st = ⟨.between, b⟩) ∨
      (∃ b', structural d b c = some b' ∧ st = ⟨.between, b'⟩) ∨
      (c = '"' ∧ st = ⟨.string [] none, b⟩) ∨
      (isWordChar c = true ∧ st = ⟨.word [c], b⟩) := by
  by_cases hmem : c ∈ structuralChars
  · rw [betweenStep_structural hmem, Option.map_eq_some_iff] at h
    obtain ⟨b', hb', rfl⟩ := h
    exact .inr (.inl ⟨b', hb', rfl⟩)
  · simp only [mem_structuralChars_iff, not_or] at hmem
    obtain ⟨h1, h2, h3, h4, h5, h6⟩ := hmem
    rw [betweenStep, if_neg h1, if_neg h2, if_neg h3, if_neg h4, if_neg h5, if_neg h6] at h
    split at h
    · next hgap => exact .inl ⟨hgap, (Option.some.inj h).symm⟩
    split at h
    · next hc => exact .inr (.inr (.inl ⟨hc, (Option.some.inj h).symm⟩))
    split at h
    · next hc => exact .inr (.inr (.inr ⟨hc, (Option.some.inj h).symm⟩))
    · cases h

/-! ### In a bare word -/

/-- A bare word goes on, or it is a value and the character is read behind it. -/
theorem step_word_cases (h : step d ⟨.word cs, b⟩ c = some st) :
    (isWordChar c = true ∧ st = ⟨.word (c :: cs), b⟩) ∨
      (isWordChar c = false ∧ ∃ b', endWord cs b = some b' ∧ betweenStep d b' c = some st) := by
  simp only [step] at h
  split at h
  · next hc => exact .inl ⟨hc, (Option.some.inj h).symm⟩
  · next hc =>
    rw [Bool.not_eq_true] at hc
    split at h
    · cases h
    · next b' hb' => exact .inr ⟨hc, b', hb', h⟩

/-- A bare word that ends is the value of some word. -/
theorem endWord_eq_some_iff :
    endWord cs b = some b' ↔ ∃ v, word? cs.reverse = some v ∧ b.put v = some b' := by
  rw [endWord]
  cases word? cs.reverse <;> simp

/-- Outside of strings a bare word goes on; or it ends, if there is one, and the character is read
between tokens. -/
theorem step_outside_cases {mode : Mode} (h : step d ⟨mode, b⟩ c = some st)
    (hout : mode.isInside = false) :
    (∃ cs, mode = .word cs ∧ isWordChar c = true ∧ st = ⟨.word (c :: cs), b⟩) ∨
      ∃ b', betweenStep d b' c = some st ∧ ((mode = .between ∧ b' = b) ∨
        ∃ cs, mode = .word cs ∧ isWordChar c = false ∧ endWord cs b = some b') := by
  cases mode with
  | between => exact .inr ⟨b, h, .inl ⟨rfl, rfl⟩⟩
  | word cs =>
    rcases step_word_cases h with ⟨hword, rfl⟩ | ⟨hword, b', hb', hstep⟩
    · exact .inl ⟨cs, rfl, hword, rfl⟩
    · exact .inr ⟨b', hstep, .inr ⟨cs, rfl, hword, hb'⟩⟩
  | string cs high => cases hout
  | escape cs high => cases hout
  | hex cs high value left => cases hout

/-- The number that digits, a fraction part and an exponent spell, once the sign is read. -/
def unsigned? (negative : Bool) (r : List Char) : Option Value :=
  let (ds, r) := spanDigits r
  if ds.isEmpty || (ds.head? == some '0' && ds != ['0']) then none
  else
    match fraction? r with
    | none => none
    | some (frac, r) =>
      match exponent? r with
      | none => none
      | some ex =>
        if frac.isNone && ex.isNone then
          let n : Int := Decimal.natOfDigits ds
          some (.int (if negative then -n else n))
        else
          let fs := frac.getD []
          some (.real (.finite ⟨negative, Decimal.natOfDigits (ds ++ fs), ex.getD 0 - fs.length⟩))

theorem number?_eq (word : List Char) :
    (∃ r, word = '-' :: r ∧ number? word = unsigned? true r) ∨ number? word = unsigned? false word := by
  unfold number?
  split
  next negative r hsign =>
  split at hsign
  · cases hsign
    exact .inl ⟨_, rfl, rfl⟩
  · cases hsign
    exact .inr rfl

/-- A value that is neither a string nor a container. -/
def Value.isPlain : Value → Bool
  | .null => true
  | .bool _ => true
  | .int _ => true
  | .real _ => true
  | _ => false

/-- The words that are no numbers. -/
def constants : List String := ["null", "true", "false", "NaN", "Infinity", "-Infinity"]

/-- The parts of a number: a sign or none, digits, a fraction part and an exponent. -/
theorem number?_cases {word : List Char} (h : number? word = some v) :
    v.isPlain = true ∧ ∃ r frac rest ex, (word = '-' :: r ∨ word = r) ∧
      fraction? (spanDigits r).2 = some (frac, rest) ∧ exponent? rest = some ex := by
  have hparts : ∀ negative r, unsigned? negative r = some v → v.isPlain = true ∧
      ∃ frac rest ex, fraction? (spanDigits r).2 = some (frac, rest) ∧ exponent? rest = some ex := by
    intro negative r h
    unfold unsigned? at h
    dsimp only at h
    split at h
    · cases h
    split at h
    · cases h
    next frac rest hfraction =>
    split at h
    · cases h
    next ex hexponent =>
    refine ⟨?_, frac, rest, ex, hfraction, hexponent⟩
    split at h <;> exact Option.some.inj h ▸ rfl
  rcases number?_eq word with ⟨r, hword, heq⟩ | heq
  · obtain ⟨hplain, frac, rest, ex, hall⟩ := hparts true r (heq ▸ h)
    exact ⟨hplain, r, frac, rest, ex, .inl hword, hall⟩
  · obtain ⟨hplain, frac, rest, ex, hall⟩ := hparts false word (heq ▸ h)
    exact ⟨hplain, word, frac, rest, ex, .inr rfl, hall⟩

/-- A word that has a value is a constant or a number, and the value is plain. -/
theorem word?_cases {word : List Char} (h : word? word = some v) :
    v.isPlain = true ∧ (String.ofList word ∈ constants ∨ number? word = some v) := by
  have hconstant : ∀ {constant : String} {w : Value}, constant ∈ constants → w.isPlain = true →
      word = constant.toList → some w = some v →
      v.isPlain = true ∧ (String.ofList word ∈ constants ∨ number? word = some v) := by
    intro constant w hmem hplain hword hw
    rw [hword, String.ofList_toList, ← Option.some.inj hw]
    exact ⟨hplain, .inl hmem⟩
  unfold word? at h
  split at h
  · next hs => exact hconstant (by decide) rfl hs h
  split at h
  · next hs => exact hconstant (by decide) rfl hs h
  split at h
  · next hs => exact hconstant (by decide) rfl hs h
  split at h
  · next hs => exact hconstant (by decide) rfl hs h
  split at h
  · next hs => exact hconstant (by decide) rfl hs h
  split at h
  · next hs => exact hconstant (by decide) rfl hs h
  · exact ⟨(number?_cases h).1, .inr h⟩

/-! ### In a string -/

/-- A string goes on, ends, or meets a backslash. -/
theorem step_string_cases (h : step d ⟨.string cs high, b⟩ c = some st) :
    (c = '\\' ∧ st = ⟨.escape cs high, b⟩) ∨
      ∃ cs', settle d cs high = some cs' ∧
        ((c = '"' ∧ ∃ b', b.put (.string (String.ofList cs'.reverse)) = some b' ∧
            st = ⟨.between, b'⟩) ∨
          (c ≠ '\\' ∧ c ≠ '"' ∧ 0x20 ≤ c.toNat ∧ st = ⟨.string (c :: cs') none, b⟩)) := by
  simp only [step] at h
  split at h
  · next hc => exact .inl ⟨hc, (Option.some.inj h).symm⟩
  next hslash =>
  split at h
  · cases h
  next cs' hsettle =>
  refine .inr ⟨cs', hsettle, ?_⟩
  split at h
  · next hc =>
    obtain ⟨b', hb', rfl⟩ := Option.map_eq_some_iff.mp h
    exact .inl ⟨hc, b', hb', rfl⟩
  · next hquote =>
    split at h
    · cases h
    · next hlow => exact .inr ⟨hslash, hquote, Nat.le_of_not_lt hlow, (Option.some.inj h).symm⟩

/-- Behind a backslash stands a letter that means something, or four digits follow. -/
theorem step_escape_cases (h : step d ⟨.escape cs high, b⟩ c = some st) :
    (c = 'u' ∧ st = ⟨.hex cs high 0 4, b⟩) ∨
      ∃ cs' e, escaped? c = some e ∧ st = ⟨.string (e :: cs') none, b⟩ := by
  simp only [step] at h
  split at h
  · next hc => exact .inl ⟨hc, (Option.some.inj h).symm⟩
  · split at h
    · next cs' e _ he => exact .inr ⟨cs', e, he, (Option.some.inj h).symm⟩
    · cases h

theorem isInside_addUnit {mode : Mode} {u : Nat} (h : addUnit d cs high u = some mode) :
    mode.isInside = true := by
  unfold addUnit at h
  split at h
  · cases high with
    | none =>
      dsimp only at h
      split at h
      · exact Option.some.inj h ▸ rfl
      · cases h
    | some half => exact Option.some.inj h ▸ rfl
  · cases hsettle : settle d cs high with
    | none =>
      rw [hsettle] at h
      cases h
    | some cs' =>
      simp only [hsettle] at h
      split at h <;> exact Option.some.inj h ▸ rfl

/-- The digits of an escape stay inside the string. -/
theorem step_hex_cases {value left : Nat} (h : step d ⟨.hex cs high value left, b⟩ c = some st) :
    (hexValue? c).isSome = true ∧ st.mode.isInside = true ∧ st.builder = b := by
  simp only [step] at h
  split at h
  · cases h
  next digit hdigit =>
  refine ⟨by rw [hdigit]; rfl, ?_⟩
  split at h
  · obtain ⟨mode, hmode, rfl⟩ := Option.map_eq_some_iff.mp h
    exact ⟨isInside_addUnit hmode, rfl⟩
  · exact Option.some.inj h ▸ ⟨rfl, rfl⟩

/-- Inside a string the containers stay as they are until the string ends. -/
theorem step_inside_cases (hinside : st.mode.isInside = true) (h : step d st c = some st') :
    (st'.mode.isInside = true ∧ st'.builder = st.builder) ∨
      (c = '"' ∧ st'.mode = .between ∧
        ∃ s, st.builder.put (.string s) = some st'.builder) := by
  obtain ⟨mode, b⟩ := st
  cases mode with
  | between => cases hinside
  | word cs => cases hinside
  | string cs high =>
    rcases step_string_cases h with ⟨-, rfl⟩ | ⟨cs', -, ⟨rfl, b', hb', rfl⟩ | ⟨-, -, -, rfl⟩⟩
    · exact .inl ⟨rfl, rfl⟩
    · exact .inr ⟨rfl, rfl, _, hb'⟩
    · exact .inl ⟨rfl, rfl⟩
  | escape cs high =>
    rcases step_escape_cases h with ⟨-, rfl⟩ | ⟨cs', e, -, rfl⟩
    · exact .inl ⟨rfl, rfl⟩
    · exact .inl ⟨rfl, rfl⟩
  | hex cs high value left =>
    obtain ⟨-, hmode, hb⟩ := step_hex_cases h
    exact .inl ⟨hmode, hb⟩

/-! ### Whole texts -/

theorem run_cons_eq_some_iff {r : List Char} :
    run d st (c :: r) = some st' ↔ ∃ next, step d st c = some next ∧ run d next r = some st' := by
  rw [run]
  cases step d st c <;> simp

theorem run_append_eq_some_iff {s r : List Char} :
    run d st (s ++ r) = some st' ↔ ∃ mid, run d st s = some mid ∧ run d mid r = some st' := by
  rw [run_append, Option.bind_eq_some_iff]

theorem parse?_eq_some_iff {s : List Char} :
    parse? d s = some v ↔ ∃ st, run d .start s = some st ∧ finish st = some v := by
  rw [parse?]
  cases run d .start s <;> simp

/-- What holds along each step holds along a whole text. -/
theorem run_induction {P : State → Prop} {s : List Char}
    (hstep : ∀ st c st', P st → step d st c = some st' → P st') (hst : P st)
    (h : run d st s = some st') : P st' := by
  induction s generalizing st with
  | nil => exact Option.some.inj h ▸ hst
  | cons c r ih =>
    obtain ⟨next, hnext, hrest⟩ := run_cons_eq_some_iff.mp h
    exact ih (hstep st c next hst hnext) hrest

end RepoAudit.Json
