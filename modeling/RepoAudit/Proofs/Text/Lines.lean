import RepoAudit.Text.Lines

/-!
# The lines of a text made of lines

Texts without a carriage return are looked at here, so that each break is one character.

* `lines_append_newline` — a line feed ends the lines before it, whatever comes after;
* `lines_eq_of_unbroken` — a text without a break is one line, or none;
* `filterMap_lines_newline` — a line feed at the very end makes no further line but an empty one;
* `mem_lines_cases` — where a line stands: at the start and up to the first break, or behind a break;
  `infix_of_mem_lines` — in any case it is a part of the text.
-/

namespace RepoAudit.Text

variable {α : Type} {l rest s piece : List Char} {c : Char}

/-- No character of the text breaks a line. -/
def IsUnbroken (s : List Char) : Prop := ∀ c ∈ s, isLineBreak c = false

instance (s : List Char) : Decidable (IsUnbroken s) :=
  decidable_of_iff (s.all (fun c => !isLineBreak c) = true) (by simp [IsUnbroken])

theorem linesScan_cons (h : c ≠ '\r') (line : List Char) (done : List (List Char)) (r : List Char) :
    linesScan line done (c :: r) =
      if isLineBreak c then linesScan [] (line.reverse :: done) r else linesScan (c :: line) done r := by
  rw [linesScan]
  intro r' heq
  exact absurd heq h

/-- The lines that are closed already stand first. -/
theorem linesScan_done (hs : '\r' ∉ s) (line : List Char) (done : List (List Char)) :
    linesScan line done s = done.reverse ++ linesScan line [] s := by
  induction s generalizing line done with
  | nil =>
    rw [linesScan, linesScan]
    split <;> simp
  | cons c s ih =>
    rw [List.mem_cons, not_or] at hs
    rw [linesScan_cons (Ne.symm hs.1), linesScan_cons (Ne.symm hs.1)]
    split
    · rw [ih hs.2 [] (line.reverse :: done), ih hs.2 [] [line.reverse], List.reverse_cons,
        List.append_assoc]
      rfl
    · exact ih hs.2 (c :: line) done

theorem linesScan_break (hc : c ≠ '\r') (hbreak : isLineBreak c = true) (hs : '\r' ∉ s)
    (line : List Char) : linesScan line [] (c :: s) = line.reverse :: linesScan [] [] s := by
  rw [linesScan_cons hc, if_pos hbreak, linesScan_done hs]
  rfl

theorem linesScan_char (hc : c ≠ '\r') (hbreak : isLineBreak c = false) (line s : List Char) :
    linesScan line [] (c :: s) = linesScan (c :: line) [] s := by
  rw [linesScan_cons hc, hbreak]
  rfl

/-! ### Lines put together -/

/-- A line feed ends all lines before it. -/
theorem lines_append_newline (hl : '\r' ∉ l) (hrest : '\r' ∉ rest) :
    lines (l ++ '\n' :: rest) = lines (l ++ ['\n']) ++ lines rest := by
  have hscan : ∀ line, linesScan line [] (l ++ '\n' :: rest) =
      linesScan line [] (l ++ ['\n']) ++ linesScan [] [] rest := by
    induction l with
    | nil =>
      intro line
      rw [List.nil_append, List.nil_append, linesScan_break (by decide) (by decide) hrest,
        linesScan_break (by decide) (by decide) List.not_mem_nil]
      rfl
    | cons c l ih =>
      intro line
      rw [List.mem_cons, not_or] at hl
      have hc : c ≠ '\r' := Ne.symm hl.1
      rw [List.cons_append, List.cons_append]
      cases hbreak : isLineBreak c with
      | true =>
        rw [linesScan_break hc hbreak (by simp [hl.2, hrest]),
          linesScan_break hc hbreak (by simp [hl.2]), ih hl.2, List.cons_append]
      | false => rw [linesScan_char hc hbreak, linesScan_char hc hbreak, ih hl.2]
  exact hscan []

/-- A text without a break is a line, unless it is empty. -/
theorem lines_eq_of_unbroken (hs : IsUnbroken s) (hne : s ≠ []) : lines s = [s] := by
  have hscan : ∀ line, line ≠ [] ∨ s ≠ [] → linesScan line [] s = [line.reverse ++ s] := by
    clear hne
    induction s with
    | nil =>
      intro line hline
      rw [linesScan, if_neg (by simpa using hline), List.append_nil]
      rfl
    | cons c s ih =>
      intro line _
      have hbreak := hs c List.mem_cons_self
      have hc : c ≠ '\r' := by
        rintro rfl
        exact absurd hbreak (by decide)
      rw [linesScan_char hc hbreak, ih (fun c hc => hs c (List.mem_cons_of_mem _ hc)) _
        (.inl (List.cons_ne_nil _ _)), List.reverse_cons, List.append_assoc]
      rfl
  exact hscan [] (.inr hne)

/-- Whatever is taken from the lines of a text and not from an empty one, a line feed at the end of the
text adds nothing. -/
theorem filterMap_lines_newline (hs : '\r' ∉ s) {take : List Char → Option α} (hnil : take [] = none) :
    (lines (s ++ ['\n'])).filterMap take = (lines s).filterMap take := by
  have hscan : ∀ line, (linesScan line [] (s ++ ['\n'])).filterMap take =
      (linesScan line [] s).filterMap take := by
    induction s with
    | nil =>
      intro line
      rw [List.nil_append, linesScan_break (by decide) (by decide) List.not_mem_nil, linesScan,
        linesScan]
      cases line with
      | nil =>
        show List.filterMap take [[]] = []
        rw [List.filterMap_cons_none hnil, List.filterMap_nil]
      | cons c line => rfl
    | cons c s ih =>
      intro line
      rw [List.mem_cons, not_or] at hs
      have hc : c ≠ '\r' := Ne.symm hs.1
      rw [List.cons_append]
      cases hbreak : isLineBreak c with
      | true =>
        rw [linesScan_break hc hbreak (by simp [hs.2]), linesScan_break hc hbreak hs.2,
          List.filterMap_cons, List.filterMap_cons, ih hs.2]
      | false => rw [linesScan_char hc hbreak, linesScan_char hc hbreak, ih hs.2]
  exact hscan []

/-- A line reaches from the start of the text to the first break or the end, or it follows a break. -/
theorem mem_lines_cases (hs : '\r' ∉ s) (h : piece ∈ lines s) :
    (∃ post, s = piece ++ post ∧ IsUnbroken piece ∧
        (post = [] ∨ ∃ b r, post = b :: r ∧ isLineBreak b = true)) ∨
      ∃ pre b post, s = pre ++ b :: (piece ++ post) ∧ isLineBreak b = true := by
  have hscan : ∀ line, piece ∈ linesScan line [] s →
      (∃ q post, piece = line.reverse ++ q ∧ s = q ++ post ∧ IsUnbroken q ∧
          (post = [] ∨ ∃ b r, post = b :: r ∧ isLineBreak b = true)) ∨
        ∃ pre b post, s = pre ++ b :: (piece ++ post) ∧ isLineBreak b = true := by
    clear h
    induction s with
    | nil =>
      intro line hmem
      rw [linesScan] at hmem
      split at hmem
      · exact absurd hmem List.not_mem_nil
      · rw [List.reverse_singleton, List.mem_singleton] at hmem
        exact .inl ⟨[], [], by rw [hmem, List.append_nil], rfl, fun c hc => absurd hc List.not_mem_nil,
          .inl rfl⟩
    | cons c s ih =>
      intro line hmem
      rw [List.mem_cons, not_or] at hs
      have hc : c ≠ '\r' := Ne.symm hs.1
      cases hbreak : isLineBreak c with
      | true =>
        rw [linesScan_break hc hbreak hs.2, List.mem_cons] at hmem
        rcases hmem with hfirst | hmem
        · exact .inl ⟨[], c :: s, by rw [hfirst, List.append_nil], rfl,
            fun c hc => absurd hc List.not_mem_nil, .inr ⟨c, s, rfl, hbreak⟩⟩
        · rcases ih hs.2 [] hmem with ⟨q, post, rfl, rfl, -, -⟩ | ⟨pre, b, post, rfl, hb⟩
          · exact .inr ⟨[], c, post, rfl, hbreak⟩
          · exact .inr ⟨c :: pre, b, post, rfl, hb⟩
      | false =>
        rw [linesScan_char hc hbreak] at hmem
        rcases ih hs.2 (c :: line) hmem with ⟨q, post, rfl, rfl, hq, hpost⟩ | ⟨pre, b, post, rfl, hb⟩
        · exact .inl ⟨c :: q, post, by simp, rfl, List.forall_mem_cons.mpr ⟨hbreak, hq⟩, hpost⟩
        · exact .inr ⟨c :: pre, b, post, rfl, hb⟩
  rcases hscan [] h with ⟨q, post, rfl, hsplit, hq, hpost⟩ | hbehind
  · exact .inl ⟨post, hsplit, hq, hpost⟩
  · exact .inr hbehind

/-- A line is a part of the text. -/
theorem infix_of_mem_lines (hs : '\r' ∉ s) (h : piece ∈ lines s) : piece <:+: s := by
  rcases mem_lines_cases hs h with ⟨post, rfl, -, -⟩ | ⟨pre, b, post, rfl, -⟩
  · exact ⟨[], post, rfl⟩
  · exact ⟨pre ++ [b], post, by simp⟩

end RepoAudit.Text
