import Mathlib.Tactic.IntervalCases
import RepoAudit.Proofs.Json.Steps
import RepoAudit.Proofs.Text.Trimming

/-!
# What a piece of a document can be

A document may hold, inside its strings, blanks that break a line elsewhere. Cut there, its pieces can be
documents of their own, but hardly with a key in them: where the document is inside a string, a piece
that is read for itself is outside, and the other way round. So a key of the piece lies between two
strings of the document, where only brackets, blanks and words can stand.

* `wordChars`, `mem_wordChars_of_word?` — the few characters that words consist of;
* `step_outside_blank`, `step_inside_blank` — what a blank does outside and inside a string;
* `parse?_trim` — the blanks around a document do not matter;
* `Value.Avoids` — no key of an object holds a certain character;
* `Opposed` — two readers of the same characters, just one of them inside a string; `Opposed.step`,
  `Opposed.run` — they stay so, step by step and along a whole text;
* `parse?_before_break` — the piece up to the first break is no document;
* `avoids_of_behind_break` — **the keys of a later piece hold no character that words cannot hold**.
-/

namespace RepoAudit.Json

variable {d : Dialect} {b b' : Builder} {st st' mid W W' S S' : State} {c x : Char}
  {cs s t r pre piece post : List Char} {v w : Value} {high : Option Nat} {f f' : Frame}

/-! ### The characters of words -/

/-- The characters of constants and numbers. -/
def wordChars : List Char := "nulltruefalseNaNInfinity0123456789-+.eE".toList

theorem mem_wordChars_of_isDigit (h : Decimal.isDigit c = true) : c ∈ wordChars := by
  simp only [Decimal.isDigit, Bool.and_eq_true, decide_eq_true_eq] at h
  have hlow : 48 ≤ c.toNat := h.1
  have hhigh : c.toNat ≤ 57 := h.2
  rw [← Char.ofNat_toNat c]
  generalize c.toNat = n at hlow hhigh
  interval_cases n <;> decide

theorem mem_spanDigits (h : c ∈ cs) : c ∈ wordChars ∨ c ∈ (spanDigits cs).2 := by
  rw [← List.takeWhile_append_dropWhile (p := Decimal.isDigit) (l := cs), List.mem_append] at h
  exact h.imp (fun hc => mem_wordChars_of_isDigit (List.mem_takeWhile_imp hc)) id

theorem mem_fraction? {frac : Option (List Char)} {rest : List Char}
    (h : fraction? cs = some (frac, rest)) (hc : c ∈ cs) : c ∈ wordChars ∨ c ∈ rest := by
  unfold fraction? at h
  split at h
  · next r =>
    dsimp only at h
    split at h
    · cases h
    · obtain ⟨-, rfl⟩ := Prod.mk.inj (Option.some.inj h)
      rcases List.mem_cons.mp hc with rfl | hc
      · exact .inl (by decide)
      · exact mem_spanDigits hc
  · obtain ⟨-, rfl⟩ := Prod.mk.inj (Option.some.inj h)
    exact .inr hc

theorem mem_wordChars_of_exponent? {ex : Option Int} (h : exponent? cs = some ex) (hc : c ∈ cs) :
    c ∈ wordChars := by
  have hdigits : ∀ (r : List Char) (n : Int),
      (if (spanDigits r).1.isEmpty || !(spanDigits r).2.isEmpty then none else some (some n)) = some ex →
      c ∈ r → c ∈ wordChars := by
    intro r n h hc
    split at h
    · cases h
    next hend =>
    simp only [Bool.or_eq_true, Bool.not_eq_true', not_or, Bool.not_eq_false, List.isEmpty_iff] at hend
    rcases mem_spanDigits hc with hc | hc
    · exact hc
    · rw [hend.2] at hc
      exact absurd hc List.not_mem_nil
  unfold exponent? at h
  split at h
  · exact absurd hc List.not_mem_nil
  next e r =>
  split at h
  next he =>
    rcases List.mem_cons.mp hc with rfl | hc
    · rcases he with rfl | rfl <;> decide
    split at h
    next negative digits hsign =>
    have hrest : c ∈ digits → c ∈ wordChars := hdigits digits _ h
    split at hsign
    · obtain ⟨-, rfl⟩ := Prod.mk.inj hsign
      exact (List.mem_cons.mp hc).elim (fun hc => hc ▸ by decide) hrest
    · obtain ⟨-, rfl⟩ := Prod.mk.inj hsign
      exact (List.mem_cons.mp hc).elim (fun hc => hc ▸ by decide) hrest
    · obtain ⟨-, rfl⟩ := Prod.mk.inj hsign
      exact hrest hc
  · cases h

/-- A word that has a value consists of few characters. -/
theorem mem_wordChars_of_word? (h : word? s = some v) (hc : c ∈ s) : c ∈ wordChars := by
  rcases (word?_cases h).2 with hconstant | hnumber
  · have hall : (constants.all fun constant => constant.toList.all wordChars.contains) = true := by
      decide
    have hchars := List.all_eq_true.mp hall _ hconstant
    rw [String.toList_ofList, List.all_eq_true] at hchars
    exact List.contains_iff_mem.mp (hchars c hc)
  · obtain ⟨-, r, frac, rest, ex, hsign, hfraction, hexponent⟩ := number?_cases hnumber
    have hunsigned : c ∈ r → c ∈ wordChars := by
      intro hc
      rcases mem_spanDigits hc with hc | hc
      · exact hc
      rcases mem_fraction? hfraction hc with hc | hc
      · exact hc
      · exact mem_wordChars_of_exponent? hexponent hc
    rcases hsign with rfl | rfl
    · exact (List.mem_cons.mp hc).elim (fun hc => hc ▸ by decide) hunsigned
    · exact hunsigned hc

/-! ### Outside of strings -/

/-- A character outside of strings never is a backslash, and only a quote begins a string. -/
theorem step_outside_quote (h : step d st c = some st') (hout : st.mode.isInside = false) :
    c ≠ '\\' ∧ ((c = '"' ∧ st'.mode = .string [] none) ∨ (c ≠ '"' ∧ st'.mode.isInside = false)) := by
  obtain ⟨mode, b⟩ := st
  rcases step_outside_cases h hout with ⟨cs, -, hword, rfl⟩ | ⟨b', hstep, -⟩
  · refine ⟨?_, .inr ⟨?_, rfl⟩⟩ <;> rintro rfl <;> exact absurd hword (by decide)
  · rcases betweenStep_cases hstep with ⟨hgap, rfl⟩ | ⟨b'', hb'', rfl⟩ | ⟨rfl, rfl⟩ | ⟨hword, rfl⟩
    · refine ⟨?_, .inr ⟨?_, rfl⟩⟩ <;> rintro rfl <;> exact absurd hgap (by decide)
    · refine ⟨?_, .inr ⟨?_, rfl⟩⟩ <;> rintro rfl <;> exact absurd (mem_of_structural hb'') (by decide)
    · exact ⟨by decide, .inl ⟨rfl, rfl⟩⟩
    · refine ⟨?_, .inr ⟨?_, rfl⟩⟩ <;> rintro rfl <;> exact absurd hword (by decide)

theorem betweenStep_word (h : betweenStep d b c = some st) (hword : isWordChar c = true) :
    st = ⟨.word [c], b⟩ := by
  rcases betweenStep_cases h with ⟨hgap, -⟩ | ⟨b', hb', -⟩ | ⟨rfl, -⟩ | ⟨-, rfl⟩
  · rcases hgap with rfl | rfl | rfl | rfl <;> exact absurd hword (by decide)
  · rcases mem_structuralChars_iff.mp (mem_of_structural hb') with rfl | rfl | rfl | rfl | rfl | rfl <;>
      exact absurd hword (by decide)
  · exact absurd hword (by decide)
  · rfl

/-- A character of a word that no word can hold stays in the word that it stands in. -/
theorem step_outside_word (h : step d st c = some st') (hout : st.mode.isInside = false)
    (hword : isWordChar x = true) (hx : x ∉ wordChars)
    (hread : x = c ∨ ∃ cs, st.mode = .word cs ∧ x ∈ cs) : ∃ cs, st'.mode = .word cs ∧ x ∈ cs := by
  obtain ⟨mode, b⟩ := st
  rcases step_outside_cases h hout with ⟨cs, rfl, -, rfl⟩ |
    ⟨b', hstep, ⟨rfl, rfl⟩ | ⟨cs, rfl, hend, hb'⟩⟩
  · refine ⟨c :: cs, rfl, List.mem_cons.mpr (hread.imp id ?_)⟩
    rintro ⟨cs', hmode, hmem⟩
    cases hmode
    exact hmem
  · obtain rfl : x = c := hread.resolve_right (by rintro ⟨cs, hmode, -⟩; cases hmode)
    rw [betweenStep_word hstep hword]
    exact ⟨[x], rfl, List.mem_singleton_self x⟩
  · -- a word that ends has a value, so it cannot hold the character, nor can the character end it
    exfalso
    rcases hread with rfl | ⟨cs', hmode, hmem⟩
    · rw [hend] at hword
      cases hword
    · cases hmode
      obtain ⟨v, hv, -⟩ := endWord_eq_some_iff.mp hb'
      exact hx (mem_wordChars_of_word? hv (List.mem_reverse.mpr hmem))

/-! ### Blanks -/

theorem not_isWordChar_of_isBlank (h : Text.isBlank c = true) : isWordChar c = false := by
  have hcode : ∀ d : Char, isWordChar d = true → 43 ≤ d.toNat ∧ d.toNat ≤ 122 := by
    intro d hd
    simp only [isWordChar, Bool.or_eq_true, Bool.and_eq_true, decide_eq_true_eq, beq_iff_eq] at hd
    rcases hd with ((((hd | hd) | hd) | rfl) | rfl) | rfl
    · exact ⟨le_trans (by decide) (show 48 ≤ d.toNat from hd.1),
        le_trans (show d.toNat ≤ 57 from hd.2) (by decide)⟩
    · exact ⟨le_trans (by decide) (show 97 ≤ d.toNat from hd.1), show d.toNat ≤ 122 from hd.2⟩
    · exact ⟨le_trans (by decide) (show 65 ≤ d.toNat from hd.1),
        le_trans (show d.toNat ≤ 90 from hd.2) (by decide)⟩
    · decide
    · decide
    · decide
  cases hword : isWordChar c with
  | false => rfl
  | true =>
    obtain ⟨hlow, hhigh⟩ := hcode c hword
    simp only [Text.isBlank, Bool.or_eq_true, Bool.and_eq_true, decide_eq_true_eq, beq_iff_eq] at h
    omega

theorem isWordChar_of_hexValue? (h : (hexValue? c).isSome = true) : isWordChar c = true := by
  simp only [hexValue?] at h
  simp only [isWordChar, Bool.or_eq_true, Bool.and_eq_true, decide_eq_true_eq, beq_iff_eq] at h ⊢
  split at h
  · next hc => exact .inl (.inl (.inl (.inl (.inl hc))))
  split at h
  · next hc => exact .inl (.inl (.inl (.inl (.inr ⟨hc.1, Char.le_trans hc.2 (show 'f' ≤ 'z' by decide)⟩))))
  split at h
  · next hc => exact .inl (.inl (.inl (.inr ⟨hc.1, Char.le_trans hc.2 (show 'F' ≤ 'Z' by decide)⟩)))
  · cases h

theorem betweenStep_blank (h : betweenStep d b c = some st) (hblank : Text.isBlank c = true) :
    IsGap c ∧ st = ⟨.between, b⟩ := by
  rcases betweenStep_cases h with hgap | ⟨b', hb', -⟩ | ⟨rfl, -⟩ | ⟨hword, -⟩
  · exact hgap
  · rcases mem_structuralChars_iff.mp (mem_of_structural hb') with rfl | rfl | rfl | rfl | rfl | rfl <;>
      exact absurd hblank (by decide)
  · exact absurd hblank (by decide)
  · rw [not_isWordChar_of_isBlank hblank] at hword
    cases hword

/-- A blank outside of strings is one of the four that may stand there, and it changes no result. -/
theorem step_outside_blank (h : step d st c = some st') (hblank : Text.isBlank c = true)
    (hout : st.mode.isInside = false) :
    IsGap c ∧ st'.mode.isInside = false ∧ finish st = finish st' := by
  obtain ⟨mode, b⟩ := st
  rcases step_outside_cases h hout with ⟨cs, -, hword, -⟩ |
    ⟨b', hstep, ⟨rfl, rfl⟩ | ⟨cs, rfl, -, hb'⟩⟩
  · rw [not_isWordChar_of_isBlank hblank] at hword
    cases hword
  · obtain ⟨hgap, rfl⟩ := betweenStep_blank hstep hblank
    exact ⟨hgap, rfl, rfl⟩
  · obtain ⟨hgap, rfl⟩ := betweenStep_blank hstep hblank
    refine ⟨hgap, rfl, ?_⟩
    simp only [finish, hb']

theorem not_isBlank_of_escaped? {e : Char} (h : escaped? c = some e) : Text.isBlank c = false := by
  unfold escaped? at h
  split at h
  · next hc => rcases hc with rfl | rfl | rfl <;> decide
  split at h
  · next hc => exact hc ▸ by decide
  split at h
  · next hc => exact hc ▸ by decide
  split at h
  · next hc => exact hc ▸ by decide
  split at h
  · next hc => exact hc ▸ by decide
  split at h
  · next hc => exact hc ▸ by decide
  · cases h

/-- A blank inside a string is a character of it, and no control character. -/
theorem step_inside_blank (h : step d st c = some st') (hblank : Text.isBlank c = true)
    (hin : st.mode.isInside = true) :
    0x20 ≤ c.toNat ∧ ∃ cs, st' = ⟨.string cs none, st.builder⟩ := by
  obtain ⟨mode, b⟩ := st
  cases mode with
  | between => cases hin
  | word cs => cases hin
  | string cs high =>
    rcases step_string_cases h with ⟨rfl, -⟩ | ⟨cs', -, ⟨rfl, -⟩ | ⟨-, -, hlow, rfl⟩⟩
    · exact absurd hblank (by decide)
    · exact absurd hblank (by decide)
    · exact ⟨hlow, _, rfl⟩
  | escape cs high =>
    rcases step_escape_cases h with ⟨rfl, -⟩ | ⟨cs', e, he, -⟩
    · exact absurd hblank (by decide)
    · rw [not_isBlank_of_escaped? he] at hblank
      cases hblank
  | hex cs high value left =>
    have hword := isWordChar_of_hexValue? (step_hex_cases h).1
    rw [not_isWordChar_of_isBlank hblank] at hword
    cases hword

/-- A document does not end inside a string. -/
theorem isInside_of_finish (h : finish st = some v) : st.mode.isInside = false := by
  obtain ⟨mode, b⟩ := st
  cases mode with
  | between => rfl
  | word cs => rfl
  | string cs high => cases h
  | escape cs high => cases h
  | hex cs high value left => cases h

/-- Blanks at the end of a document do not matter. -/
theorem finish_of_run_blanks (hs : ∀ c ∈ s, Text.isBlank c = true) (h : run d st s = some st')
    (hfinish : finish st' = some v) : finish st = some v := by
  induction s generalizing st with
  | nil => exact Option.some.inj h ▸ hfinish
  | cons c s ih =>
    rw [List.forall_mem_cons] at hs
    obtain ⟨next, hnext, hrest⟩ := run_cons_eq_some_iff.mp h
    have hnextFinish := ih hs.2 hrest
    cases hin : st.mode.isInside with
    | false =>
      obtain ⟨-, -, hsame⟩ := step_outside_blank hnext hs.1 hin
      exact hsame.trans hnextFinish
    | true =>
      obtain ⟨-, cs, rfl⟩ := step_inside_blank hnext hs.1 hin
      cases hnextFinish

/-- Blanks do not lead into a string. -/
theorem isInside_of_run_blanks (hs : ∀ c ∈ s, Text.isBlank c = true) (h : run d st s = some st')
    (hout : st.mode.isInside = false) : st'.mode.isInside = false := by
  induction s generalizing st with
  | nil => exact Option.some.inj h ▸ hout
  | cons c s ih =>
    rw [List.forall_mem_cons] at hs
    obtain ⟨next, hnext, hrest⟩ := run_cons_eq_some_iff.mp h
    exact ih hs.2 hrest (step_outside_blank hnext hs.1 hout).2.1

/-- Inside a string one blank after the other is added to it. -/
theorem run_inside_blanks {B : Builder} (hs : ∀ c ∈ s, Text.isBlank c = true)
    (h : run d ⟨.string cs none, B⟩ s = some st') : ∃ cs', st' = ⟨.string cs' none, B⟩ := by
  induction s generalizing cs with
  | nil => exact ⟨cs, (Option.some.inj h).symm⟩
  | cons c s ih =>
    rw [List.forall_mem_cons] at hs
    obtain ⟨next, hnext, hrest⟩ := run_cons_eq_some_iff.mp h
    obtain ⟨-, cs', rfl⟩ := step_inside_blank hnext hs.1 rfl
    exact ih hs.2 hrest

theorem run_trimStart (h : run d .start s = some st) : run d .start (Text.trimStart s) = some st := by
  induction s with
  | nil => exact h
  | cons c s ih =>
    rw [Text.trimStart]
    cases hblank : Text.isBlank c with
    | false => rwa [List.dropWhile_cons_of_neg (by rw [hblank]; decide)]
    | true =>
      rw [List.dropWhile_cons_of_pos hblank]
      obtain ⟨next, hnext, hrest⟩ := run_cons_eq_some_iff.mp h
      obtain ⟨-, rfl⟩ := betweenStep_blank hnext hblank
      exact ih hrest

/-- The blanks around a document do not matter. -/
theorem parse?_trim (h : parse? d s = some v) : parse? d (Text.trim s) = some v := by
  obtain ⟨st, hrun, hfinish⟩ := parse?_eq_some_iff.mp h
  obtain ⟨blanks, hsplit, hblanks⟩ := Text.exists_trimEnd_append (Text.trimStart s)
  have hstart := run_trimStart hrun
  rw [hsplit] at hstart
  obtain ⟨mid, hbefore, hafter⟩ := run_append_eq_some_iff.mp hstart
  exact parse?_eq_some_iff.mpr ⟨mid, hbefore, finish_of_run_blanks hblanks hafter hfinish⟩

/-! ### Keys -/

/-- A string, or the keys of an object, do not hold a character. -/
def Value.Avoids (x : Char) : Value → Prop
  | .string s => x ∉ s.toList
  | .object fields => ∀ e ∈ fields, x ∉ e.1.toList
  | _ => True

/-- The keys of an open object, with the one whose value is missing. -/
def Frame.Avoids (x : Char) : Frame → Prop
  | .array .. => True
  | .object fields needs =>
    (∀ e ∈ fields, x ∉ e.1.toList) ∧ ∀ key, needs = .colon key ∨ needs = .value key → x ∉ key.toList

/-- The keys of all open objects and those of the document. -/
def Builder.Avoids (x : Char) (b : Builder) : Prop :=
  (∀ f ∈ b.frames, f.Avoids x) ∧ ∀ v ∈ b.root, v.Avoids x

theorem Value.avoids_of_isPlain (h : v.isPlain = true) : v.Avoids x := by
  cases v with
  | string s => cases h
  | object fields => cases h
  | _ => trivial

/-- A key that holds the character is not there. -/
theorem Value.Avoids.field {key : String} (h : v.Avoids x) (hx : x ∈ key.toList) :
    v.field key = .null := by
  have hget : ∀ fields : Fields, (∀ e ∈ fields, x ∉ e.1.toList) → Fields.get? key fields = none := by
    intro fields hfields
    induction fields with
    | nil => rfl
    | cons e fields ih =>
      obtain ⟨k, value⟩ := e
      rw [List.forall_mem_cons] at hfields
      have hne : k ≠ key := by
        rintro rfl
        exact hfields.1 hx
      rw [Fields.get?, if_neg hne]
      exact ih hfields.2
  cases v with
  | object fields => rw [Value.field, Value.fields, hget fields h, Option.getD_none]
  | _ => rfl

theorem mem_set {key : String} {value : Value} {fields : Fields} {e : String × Value}
    (h : e ∈ Fields.set key value fields) : e.1 = key ∨ e ∈ fields := by
  induction fields with
  | nil => exact .inl (by rw [List.mem_singleton.mp h])
  | cons e' fields ih =>
    obtain ⟨k, v⟩ := e'
    rw [Fields.set] at h
    split at h
    · next hk =>
      rcases List.mem_cons.mp h with rfl | h
      · exact .inl hk
      · exact .inr (List.mem_cons_of_mem _ h)
    · rcases List.mem_cons.mp h with rfl | h
      · exact .inr List.mem_cons_self
      · exact (ih h).imp id (List.mem_cons_of_mem _)

theorem Frame.Takes.avoids (h : f.Takes v f') (hf : f.Avoids x) (hv : v.Avoids x) : f'.Avoids x := by
  cases h with
  | item items needs => trivial
  | field fields key =>
    refine ⟨fun e he => ?_, fun key' hkey' => by rcases hkey' with h | h <;> cases h⟩
    rcases mem_set he with hkey | he
    · exact hkey ▸ hf.2 key (.inr rfl)
    · exact hf.1 e he
  | key fields needs key hneeds hkey =>
    subst hkey
    refine ⟨hf.1, fun key' hkey' => ?_⟩
    rcases hkey' with h | h <;> cases h
    exact hv

theorem Frame.Passes.avoids (h : f.Passes f') (hf : f.Avoids x) : f'.Avoids x := by
  cases h with
  | item items => trivial
  | field fields => exact ⟨hf.1, fun key hkey => by rcases hkey with h | h <;> cases h⟩
  | colon fields key =>
    refine ⟨hf.1, fun key' hkey' => ?_⟩
    rcases hkey' with h | h <;> cases h
    exact hf.2 key (.inl rfl)

theorem Frame.Closes.avoids (h : f.Closes v) (hf : f.Avoids x) : v.Avoids x := by
  cases h with
  | array items needs => trivial
  | object fields needs hneeds => exact hf.1

theorem put_avoids (h : b.put v = some b') (hb : b.Avoids x) (hv : v.Avoids x) : b'.Avoids x := by
  rcases put_cases h with ⟨rfl, rfl⟩ | ⟨f, f', fs, heq, rfl, htakes⟩
  · exact ⟨fun f hf => absurd hf List.not_mem_nil, fun w hw => Option.some.inj hw ▸ hv⟩
  · have hframes := hb.1
    rw [heq, List.forall_mem_cons] at hframes
    exact ⟨List.forall_mem_cons.mpr ⟨htakes.avoids hframes.1 hv, hframes.2⟩, hb.2⟩

theorem structural_avoids (h : structural d b c = some b') (hb : b.Avoids x) : b'.Avoids x := by
  rcases structural_cases h with ⟨f, hfresh, rfl⟩ | ⟨f, fs, v, heq, hcloses, hput⟩ |
    ⟨f, f', fs, heq, rfl, hpasses⟩
  · refine ⟨List.forall_mem_cons.mpr ⟨?_, hb.1⟩, hb.2⟩
    cases hfresh with
    | array => trivial
    | object =>
      exact ⟨fun e he => absurd he List.not_mem_nil, fun key hkey => by rcases hkey with h | h <;> cases h⟩
  · have hframes := hb.1
    rw [heq, List.forall_mem_cons] at hframes
    exact put_avoids hput ⟨hframes.2, hb.2⟩ (hcloses.avoids hframes.1)
  · have hframes := hb.1
    rw [heq, List.forall_mem_cons] at hframes
    exact ⟨List.forall_mem_cons.mpr ⟨hpasses.avoids hframes.1, hframes.2⟩, hb.2⟩

theorem endWord_avoids (h : endWord cs b = some b') (hb : b.Avoids x) : b'.Avoids x := by
  obtain ⟨v, hv, hput⟩ := endWord_eq_some_iff.mp h
  exact put_avoids hput hb (Value.avoids_of_isPlain (word?_cases hv).1)

theorem betweenStep_avoids (h : betweenStep d b c = some st) (hb : b.Avoids x) :
    st.builder.Avoids x := by
  rcases betweenStep_cases h with ⟨-, rfl⟩ | ⟨b', hb', rfl⟩ | ⟨-, rfl⟩ | ⟨-, rfl⟩
  · exact hb
  · exact structural_avoids hb' hb
  · exact hb
  · exact hb

/-- Outside of strings no step adds a key. -/
theorem step_outside_avoids (h : step d st c = some st') (hout : st.mode.isInside = false)
    (hb : st.builder.Avoids x) : st'.builder.Avoids x := by
  obtain ⟨mode, b⟩ := st
  rcases step_outside_cases h hout with ⟨cs, -, -, rfl⟩ | ⟨b', hstep, ⟨-, rfl⟩ | ⟨cs, -, -, hb'⟩⟩
  · exact hb
  · exact betweenStep_avoids hstep hb
  · exact betweenStep_avoids hstep (endWord_avoids hb' hb)

theorem avoids_of_finish (h : finish st = some v) (hb : st.builder.Avoids x) : v.Avoids x := by
  obtain ⟨mode, b⟩ := st
  have hroot : ∀ b : Builder, b.Avoids x → (if b.frames.isEmpty = true then b.root else none) = some v →
      v.Avoids x := by
    intro b hb h
    split at h
    · exact hb.2 v h
    · cases h
  cases mode with
  | between => exact hroot b hb h
  | word cs =>
    simp only [finish] at h
    split at h
    · cases h
    · next b' hb' => exact hroot b' (endWord_avoids hb' hb) h
  | string cs high => cases h
  | escape cs high => cases h
  | hex cs high value left => cases h

/-! ### Two readers of the same characters -/

/-- Just one of two readers stands inside a string, without an escape. The keys that the second one has
read do not hold the character `x`; a string that it is reading holds it only while the first one is in
a word that holds it too. -/
inductive Opposed (x : Char) : State → State → Prop where
  | outside (cs : List Char) (high : Option Nat) (B : Builder) (S : State)
    (hout : S.mode.isInside = false) (havoids : S.builder.Avoids x) :
    Opposed x ⟨.string cs high, B⟩ S
  | inside (W : State) (cs : List Char) (B : Builder) (hout : W.mode.isInside = false)
    (havoids : B.Avoids x) (hread : x ∈ cs → ∃ word, W.mode = .word word ∧ x ∈ word) :
    Opposed x W ⟨.string cs none, B⟩

/-- Whatever character both read, the two stay opposed: it is a quote for both or for neither. -/
theorem Opposed.step (hword : isWordChar x = true) (hx : x ∉ wordChars) (h : Opposed x W S)
    (hW : step d W c = some W') (hS : step d S c = some S') : Opposed x W' S' := by
  cases h with
  | outside cs high B S hout havoids =>
    have havoids' := step_outside_avoids hS hout havoids
    obtain ⟨hslash, hquote | hother⟩ := step_outside_quote hS hout
    · obtain ⟨rfl, hmode⟩ := hquote
      obtain ⟨mode, B'⟩ := S'
      obtain rfl : mode = .string [] none := hmode
      rcases step_string_cases hW with ⟨hc, -⟩ | ⟨cs', -, ⟨-, b', -, rfl⟩ | ⟨-, hc, -⟩⟩
      · exact absurd hc hslash
      · exact .inside _ [] B' rfl havoids' fun hmem => absurd hmem List.not_mem_nil
      · exact absurd rfl hc
    · rcases step_string_cases hW with ⟨hc, -⟩ | ⟨cs', -, ⟨hc, -⟩ | ⟨-, -, -, rfl⟩⟩
      · exact absurd hc hslash
      · exact absurd hc hother.1
      · exact .outside _ _ B S' hother.2 havoids'
  | inside W cs B hout havoids hread =>
    obtain ⟨hslash, hcases⟩ := step_outside_quote hW hout
    have hkept := step_outside_word hW hout hword hx
    rcases step_string_cases hS with ⟨hc, -⟩ | ⟨cs', hsettle, hend | hgo⟩
    · exact absurd hc hslash
    · obtain ⟨rfl, b', hput, rfl⟩ := hend
      obtain rfl := Option.some.inj hsettle
      have hmode : W'.mode = .string [] none := (hcases.resolve_right fun h => h.1 rfl).2
      obtain ⟨mode, B'⟩ := W'
      obtain rfl : mode = .string [] none := hmode
      have hfree : x ∉ cs := by
        intro hmem
        obtain ⟨word, hmode, -⟩ := hkept (.inr (hread hmem))
        cases hmode
      refine .outside _ _ B' _ rfl (put_avoids hput havoids ?_)
      show x ∉ (String.ofList cs.reverse).toList
      rw [String.toList_ofList, List.mem_reverse]
      exact hfree
    · obtain ⟨-, hquote, -, rfl⟩ := hgo
      obtain rfl := Option.some.inj hsettle
      refine .inside W' _ B (hcases.resolve_left fun h => hquote h.1).2 havoids fun hmem => hkept ?_
      exact (List.mem_cons.mp hmem).imp id hread

theorem Opposed.run (hword : isWordChar x = true) (hx : x ∉ wordChars) (h : Opposed x W S)
    (hW : run d W s = some W') (hS : run d S s = some S') : Opposed x W' S' := by
  induction s generalizing W S with
  | nil => exact Option.some.inj hW ▸ Option.some.inj hS ▸ h
  | cons c s ih =>
    obtain ⟨W₁, hW₁, hWrest⟩ := run_cons_eq_some_iff.mp hW
    obtain ⟨S₁, hS₁, hSrest⟩ := run_cons_eq_some_iff.mp hS
    exact ih (h.step hword hx hW₁ hS₁) hWrest hSrest

/-! ### The main statements -/

/-- In a document, a blank that may not stand between tokens stands inside a string. -/
theorem isInside_of_break (hblank : Text.isBlank c = true) (hgap : ¬ IsGap c)
    (h : step d st c = some st') : st.mode.isInside = true := by
  cases hin : st.mode.isInside with
  | true => rfl
  | false => exact absurd (step_outside_blank h hblank hin).1 hgap

/-- Such a blank is no control character. -/
theorem le_toNat_of_break (h : parse? d (pre ++ c :: post) = some v) (hblank : Text.isBlank c = true)
    (hgap : ¬ IsGap c) : 0x20 ≤ c.toNat := by
  obtain ⟨st, hrun, -⟩ := parse?_eq_some_iff.mp h
  obtain ⟨mid, -, hrest⟩ := run_append_eq_some_iff.mp hrun
  obtain ⟨next, hnext, -⟩ := run_cons_eq_some_iff.mp hrest
  exact (step_inside_blank hnext hblank (isInside_of_break hblank hgap hnext)).1

/-- **The piece of a document up to a break inside a string is no document.** -/
theorem parse?_before_break (h : parse? d (piece ++ c :: post) = some v)
    (hblank : Text.isBlank c = true) (hgap : ¬ IsGap c) : parse? d (Text.trim piece) = none := by
  obtain ⟨st, hrun, -⟩ := parse?_eq_some_iff.mp h
  obtain ⟨mid, hpiece, hrest⟩ := run_append_eq_some_iff.mp hrun
  obtain ⟨next, hnext, -⟩ := run_cons_eq_some_iff.mp hrest
  have hin := isInside_of_break hblank hgap hnext
  cases hparse : parse? d (Text.trim piece) with
  | none => rfl
  | some w =>
    exfalso
    obtain ⟨blanks, hsplit, hblanks⟩ := Text.exists_trimEnd_append (Text.trimStart piece)
    have hstart := run_trimStart hpiece
    rw [hsplit] at hstart
    obtain ⟨mid', hbefore, hafter⟩ := run_append_eq_some_iff.mp hstart
    obtain ⟨st', hrun', hfinish⟩ := parse?_eq_some_iff.mp hparse
    obtain rfl : mid' = st' := Option.some.inj (hbefore.symm.trans hrun')
    rw [isInside_of_run_blanks hblanks hafter (isInside_of_finish hfinish)] at hin
    cases hin

/-- **A piece of a document behind a break inside a string**, if it is a document of its own, has no key
with a character that words cannot hold. -/
theorem avoids_of_behind_break (hword : isWordChar x = true) (hx : x ∉ wordChars)
    (h : parse? d (pre ++ c :: (piece ++ post)) = some v) (hblank : Text.isBlank c = true)
    (hgap : ¬ IsGap c) (hpiece : parse? d (Text.trim piece) = some w) : w.Avoids x := by
  obtain ⟨st, hrun, -⟩ := parse?_eq_some_iff.mp h
  obtain ⟨mid, -, hrest⟩ := run_append_eq_some_iff.mp hrun
  obtain ⟨next, hnext, hpost⟩ := run_cons_eq_some_iff.mp hrest
  obtain ⟨-, cs, rfl⟩ := step_inside_blank hnext hblank (isInside_of_break hblank hgap hnext)
  -- the blanks that the piece loses on both sides, read inside the string
  obtain ⟨before, hbefore, hbeforeBlank⟩ := Text.exists_append_trimStart piece
  obtain ⟨after, hafter, -⟩ := Text.exists_trimEnd_append (Text.trimStart piece)
  rw [hbefore, hafter, List.append_assoc, List.append_assoc] at hpost
  obtain ⟨begun, hbegun, hmiddle⟩ := run_append_eq_some_iff.mp hpost
  obtain ⟨cs', rfl⟩ := run_inside_blanks hbeforeBlank hbegun
  obtain ⟨W, hW, -⟩ := run_append_eq_some_iff.mp hmiddle
  obtain ⟨S, hS, hfinish⟩ := parse?_eq_some_iff.mp hpiece
  have hempty : Builder.Avoids x ⟨[], none⟩ :=
    ⟨fun f hf => absurd hf List.not_mem_nil, fun v hv => by cases hv⟩
  have hopposed : Opposed x W S := (Opposed.outside cs' none _ .start rfl hempty).run hword hx hW hS
  cases hopposed with
  | outside cs high B S hout havoids => exact avoids_of_finish hfinish havoids
  | inside W cs B hout havoids hread => cases hfinish

end RepoAudit.Json
