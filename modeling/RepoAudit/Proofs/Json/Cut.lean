import RepoAudit.Proofs.Json.Steps

/-!
# Documents that are cut off

A document that is an array or an object ends with the bracket that closes it, and no beginning of it is
a document. The kind of a document is fixed by its first character, and a document that is complete takes
nothing more but blanks. So a complete beginning would leave only blanks, or be a bare word.

* `Kind`, `Value.kind` — arrays, objects and everything else;
* `State.kind?` — the kind of the document that is being read; `step_kind?` — no step changes it;
* `State.IsOver` — a document is complete and something more has begun: it stays so, and reading fails;
* `parse?_cut` — **no strict beginning of an array or an object is a document**;
* `parse?_dropWhile_brace` — an object begins with the first opening brace of its text.
-/

namespace RepoAudit.Json

variable {d : Dialect} {b b' : Builder} {st st' : State} {c : Char} {cs s p r : List Char}
  {v w : Value} {k : Kind} {f f' : Frame}

/-- The kinds of values that are told apart by their brackets. -/
inductive Kind where
  | scalar
  | array
  | object
  deriving DecidableEq, Repr

/-- The kind of a value. -/
def Value.kind : Value → Kind
  | .array _ => .array
  | .object _ => .object
  | _ => .scalar

/-- The kind of the value that an open container becomes. -/
def Frame.kind : Frame → Kind
  | .array .. => .array
  | .object .. => .object

/-- The kind of the document, as soon as its container has been opened or it is complete. -/
def Builder.kind? (b : Builder) : Option Kind :=
  match b.root with
  | some v => some v.kind
  | none => b.frames.getLast?.map Frame.kind

/-- The kind of the document that is being read; a bare word or a string that has begun is a scalar. -/
def State.kind? (st : State) : Option Kind :=
  match st.builder.kind? with
  | some k => some k
  | none =>
    match st.mode with
    | .between => none
    | _ => some .scalar

/-! ### The kind of the document -/

theorem Frame.Takes.kind (h : f.Takes v f') : f'.kind = f.kind := by
  cases h <;> rfl

theorem Frame.Passes.kind (h : f.Passes f') : f'.kind = f.kind := by
  cases h <;> rfl

theorem Frame.Closes.kind (h : f.Closes v) : v.kind = f.kind := by
  cases h <;> rfl

/-- Of the open containers, the outermost one decides. -/
theorem kind?_exchange (h : f'.kind = f.kind) (fs : List Frame) (root : Option Value) :
    Builder.kind? ⟨f' :: fs, root⟩ = Builder.kind? ⟨f :: fs, root⟩ := by
  cases root with
  | some w => rfl
  | none =>
    cases fs with
    | nil => exact congrArg some h
    | cons g gs => rfl

theorem exists_kind?_cons (f : Frame) (fs : List Frame) (root : Option Value) :
    ∃ k, Builder.kind? ⟨f :: fs, root⟩ = some k := by
  cases root with
  | some w => exact ⟨w.kind, rfl⟩
  | none => exact ⟨_, by rw [Builder.kind?, List.getLast?_cons]; rfl⟩

/-- A complete value decides the kind of the document when nothing else did before. -/
theorem put_kind? (h : b.put v = some b') : b'.kind? = some (b.kind?.getD v.kind) := by
  rcases put_cases h with ⟨rfl, rfl⟩ | ⟨f, f', fs, hb, rfl, htakes⟩
  · rfl
  · obtain ⟨k, hk⟩ := exists_kind?_cons f fs b.root
    rw [kind?_exchange htakes.kind, hb, hk]
    rfl

theorem structural_kind? (h : structural d b c = some b') (hk : b.kind? = some k) :
    b'.kind? = some k := by
  rcases structural_cases h with ⟨f, -, rfl⟩ | ⟨f, fs, v, hb, hcloses, hput⟩ |
    ⟨f, f', fs, hb, rfl, hpasses⟩
  · obtain ⟨frames, root⟩ := b
    cases root with
    | some w => exact hk
    | none =>
      cases frames with
      | nil => cases hk
      | cons g gs => exact hk
  · rw [put_kind? hput]
    rw [hb] at hk
    generalize b.root = root at hk
    cases root with
    | some w => exact hk
    | none =>
      cases fs with
      | nil => exact (congrArg some hcloses.kind).trans hk
      | cons g gs =>
        obtain ⟨k', hk'⟩ := exists_kind?_cons g gs none
        rw [hk', Option.getD_some, ← hk', ← hk]
        rfl
  · rw [kind?_exchange hpasses.kind, ← hb, hk]

theorem betweenStep_kind? (h : betweenStep d b c = some st) (hk : b.kind? = some k) :
    st.kind? = some k := by
  have hsame : ∀ mode, State.kind? ⟨mode, b⟩ = some k := fun mode => by rw [State.kind?, hk]
  rcases betweenStep_cases h with ⟨-, rfl⟩ | ⟨b', hb', rfl⟩ | ⟨-, rfl⟩ | ⟨-, rfl⟩
  · exact hsame _
  · rw [State.kind?, structural_kind? hb' hk]
  · exact hsame _
  · exact hsame _

theorem kind_of_word? {word : List Char} (h : word? word = some v) : v.kind = .scalar := by
  have hplain := (word?_cases h).1
  cases v with
  | array items => cases hplain
  | object fields => cases hplain
  | _ => rfl

theorem endWord_kind? (h : endWord cs b = some b') (hk : State.kind? ⟨.word cs, b⟩ = some k) :
    b'.kind? = some k := by
  obtain ⟨v, hv, hput⟩ := endWord_eq_some_iff.mp h
  rw [put_kind? hput, kind_of_word? hv, ← hk, State.kind?]
  cases b.kind? <;> rfl

theorem kind?_inside {mode : Mode} (h : mode.isInside = true) (b : Builder) :
    State.kind? ⟨mode, b⟩ = some (b.kind?.getD .scalar) := by
  rw [State.kind?]
  cases b.kind? with
  | some k => rfl
  | none =>
    cases mode with
    | between => cases h
    | word cs => cases h
    | string cs high => rfl
    | escape cs high => rfl
    | hex cs high value left => rfl

theorem kind?_between (b : Builder) : State.kind? ⟨.between, b⟩ = b.kind? := by
  rw [State.kind?]
  cases b.kind? <;> rfl

/-- No step changes the kind of the document. -/
theorem step_kind? (h : step d st c = some st') (hk : st.kind? = some k) : st'.kind? = some k := by
  obtain ⟨mode, b⟩ := st
  obtain ⟨mode', b'⟩ := st'
  cases hinside : mode.isInside with
  | true =>
    rw [kind?_inside hinside] at hk
    rcases step_inside_cases hinside h with ⟨hmode', hb'⟩ | ⟨-, hmode', s, hput⟩
    · obtain rfl : b' = b := hb'
      rw [kind?_inside hmode', hk]
    · obtain rfl : mode' = .between := hmode'
      rw [kind?_between, put_kind? hput, ← hk]
      rfl
  | false =>
    rcases step_outside_cases h hinside with ⟨cs, rfl, -, hst'⟩ |
      ⟨b'', hstep, ⟨rfl, rfl⟩ | ⟨cs, rfl, -, hb''⟩⟩
    · rw [hst']
      exact hk
    · rw [kind?_between] at hk
      exact betweenStep_kind? hstep hk
    · exact betweenStep_kind? hstep (endWord_kind? hb'' hk)

theorem run_kind? (h : run d st s = some st') (hk : st.kind? = some k) : st'.kind? = some k :=
  run_induction (P := fun st => st.kind? = some k) (fun _ _ _ hst hstep => step_kind? hstep hst) hk h

/-- The first character that is no blank decides the kind. -/
theorem step_start_cases (h : step d .start c = some st) :
    (IsGap c ∧ st = .start) ∨
      st.kind? = some (if c = '[' then .array else if c = '\x7b' then .object else .scalar) := by
  rcases betweenStep_cases h with ⟨hgap, rfl⟩ | ⟨b', hb', rfl⟩ | ⟨rfl, rfl⟩ | ⟨hword, rfl⟩
  · exact .inl ⟨hgap, rfl⟩
  · rcases structural_cases hb' with ⟨f, hfresh, rfl⟩ | ⟨f, fs, v, hb, -⟩ | ⟨f, f', fs, hb, -⟩
    · cases hfresh <;> exact .inr rfl
    · cases hb
    · cases hb
  · exact .inr rfl
  · refine .inr ?_
    rw [if_neg, if_neg]
    · rfl
    · rintro rfl
      exact absurd hword (by decide)
    · rintro rfl
      exact absurd hword (by decide)

/-- A complete document has the kind that it was read as. -/
theorem finish_kind? (h : finish st = some v) : st.kind? = some v.kind := by
  obtain ⟨mode, b⟩ := st
  have hroot : ∀ b : Builder, (if b.frames.isEmpty = true then b.root else none) = some v →
      b.kind? = some v.kind := by
    intro b hb
    split at hb
    · rw [Builder.kind?, hb]
    · cases hb
  cases mode with
  | between => rw [State.kind?, hroot b h]
  | word cs =>
    simp only [finish] at h
    split at h
    · cases h
    next b' hb' =>
    obtain ⟨w, hw, hput⟩ := endWord_eq_some_iff.mp hb'
    have hk := (put_kind? hput).symm.trans (hroot b' h)
    rw [← hk, kind_of_word? hw, State.kind?]
    cases b.kind? <;> rfl
  | string cs high => cases h
  | escape cs high => cases h
  | hex cs high value left => cases h

/-! ### Behind a complete document -/

/-- A document is complete and something more has begun. -/
def State.IsOver (st : State) : Prop :=
  st.builder.root.isSome = true ∧ (st.mode = .between → st.builder.frames ≠ [])

theorem put_root (h : b.put v = some b') (hroot : b.root.isSome = true) :
    b'.root.isSome = true ∧ b'.frames ≠ [] := by
  rcases put_cases h with ⟨rfl, -⟩ | ⟨f, f', fs, -, rfl, -⟩
  · cases hroot
  · exact ⟨hroot, List.cons_ne_nil _ _⟩

theorem structural_root (h : structural d b c = some b') (hroot : b.root.isSome = true) :
    b'.root.isSome = true ∧ b'.frames ≠ [] := by
  rcases structural_cases h with ⟨f, -, rfl⟩ | ⟨f, fs, v, -, -, hput⟩ | ⟨f, f', fs, -, rfl, -⟩
  · exact ⟨hroot, List.cons_ne_nil _ _⟩
  · exact put_root hput hroot
  · exact ⟨hroot, List.cons_ne_nil _ _⟩

/-- Behind a complete document every character but a blank is too much. -/
theorem betweenStep_isOver (h : betweenStep d b c = some st) (hroot : b.root.isSome = true)
    (hmore : b.frames ≠ [] ∨ ¬ IsGap c) : st.IsOver := by
  rcases betweenStep_cases h with ⟨hgap, rfl⟩ | ⟨b', hb', rfl⟩ | ⟨-, rfl⟩ | ⟨-, rfl⟩
  · exact ⟨hroot, fun _ => hmore.resolve_right (not_not_intro hgap)⟩
  · obtain ⟨hroot', hframes⟩ := structural_root hb' hroot
    exact ⟨hroot', fun _ => hframes⟩
  · exact ⟨hroot, fun h => by cases h⟩
  · exact ⟨hroot, fun h => by cases h⟩

theorem step_isOver (h : step d st c = some st') (hover : st.IsOver) : st'.IsOver := by
  obtain ⟨mode, b⟩ := st
  obtain ⟨hroot, hframes⟩ := hover
  by_cases hinside : mode.isInside = true
  · rcases step_inside_cases hinside h with ⟨hmode', hb'⟩ | ⟨-, -, s, hput⟩
    · refine ⟨hb' ▸ hroot, fun hbetween => ?_⟩
      rw [hbetween] at hmode'
      cases hmode'
    · obtain ⟨hroot', hframes'⟩ := put_root hput hroot
      exact ⟨hroot', fun _ => hframes'⟩
  · rw [Bool.not_eq_true] at hinside
    rcases step_outside_cases h hinside with ⟨cs, rfl, -, rfl⟩ |
      ⟨b', hstep, ⟨rfl, rfl⟩ | ⟨cs, rfl, -, hb'⟩⟩
    · exact ⟨hroot, fun h => by cases h⟩
    · exact betweenStep_isOver hstep hroot (.inl (hframes rfl))
    · obtain ⟨v, -, hput⟩ := endWord_eq_some_iff.mp hb'
      obtain ⟨hroot', hframes'⟩ := put_root hput hroot
      exact betweenStep_isOver hstep hroot' (.inl hframes')

theorem finish_of_isOver (hover : st.IsOver) : finish st = none := by
  obtain ⟨mode, b⟩ := st
  obtain ⟨hroot, hframes⟩ := hover
  cases mode with
  | between => exact if_neg (by rw [List.isEmpty_iff]; exact hframes rfl)
  | word cs =>
    simp only [finish]
    split
    · rfl
    · next b' hb' =>
      obtain ⟨v, -, hput⟩ := endWord_eq_some_iff.mp hb'
      exact if_neg (by rw [List.isEmpty_iff]; exact (put_root hput hroot).2)
  | string cs high => rfl
  | escape cs high => rfl
  | hex cs high value left => rfl

/-- Only blanks can follow a complete document. -/
theorem isGap_of_run (hroot : b.root.isSome = true) (h : run d ⟨.between, b⟩ r = some st)
    (hfinish : finish st = some v) : ∀ c ∈ r, IsGap c := by
  induction r with
  | nil => exact fun c hc => absurd hc List.not_mem_nil
  | cons c r ih =>
    obtain ⟨next, hnext, hrest⟩ := run_cons_eq_some_iff.mp h
    by_cases hgap : IsGap c
    · rw [show step d ⟨.between, b⟩ c = betweenStep d b c from rfl, betweenStep_gap hgap,
        Option.some.injEq] at hnext
      subst hnext
      exact List.forall_mem_cons.mpr ⟨hgap, ih hrest⟩
    · have hover : next.IsOver := betweenStep_isOver hnext hroot (.inr hgap)
      have hend : st.IsOver :=
        run_induction (P := State.IsOver) (fun _ _ _ hst hstep => step_isOver hstep hst) hover hrest
      rw [finish_of_isOver hend] at hfinish
      cases hfinish

/-! ### The main statements -/

/-- Where a container is complete, nothing is open, and the reader is between tokens. -/
theorem eq_between_of_finish (h : finish st = some v) (hkind : v.kind ≠ .scalar) :
    ∃ b, st = ⟨.between, b⟩ ∧ b.root.isSome = true := by
  obtain ⟨mode, b⟩ := st
  cases mode with
  | between =>
    refine ⟨b, rfl, ?_⟩
    simp only [finish] at h
    split at h
    · rw [h]
      rfl
    · cases h
  | word cs =>
    simp only [finish] at h
    split at h
    · cases h
    next b' hb' =>
    split at h
    · next hempty =>
      obtain ⟨w, hw, hput⟩ := endWord_eq_some_iff.mp hb'
      rcases put_cases hput with ⟨-, rfl⟩ | ⟨f, f', fs, -, rfl, -⟩
      · obtain rfl := Option.some.inj h
        exact absurd (kind_of_word? hw) hkind
      · cases hempty
    · cases h
  | string cs high => cases h
  | escape cs high => cases h
  | hex cs high value left => cases h

/-- **No strict beginning of an array or an object is a document**, when the text of it ends with
something else than a blank. -/
theorem parse?_cut (h : parse? d s = some v) (hkind : v.kind ≠ .scalar)
    (hlast : ∀ c ∈ s.getLast?, ¬ IsGap c) (hp : p <+: s) (hne : p ≠ s) : parse? d p = none := by
  obtain ⟨r, rfl⟩ := hp
  obtain ⟨st, hrun, hfinish⟩ := parse?_eq_some_iff.mp h
  obtain ⟨mid, hbefore, hafter⟩ := run_append_eq_some_iff.mp hrun
  cases hcut : parse? d p with
  | none => rfl
  | some w =>
    exfalso
    obtain ⟨mid', hbefore', hcomplete⟩ := parse?_eq_some_iff.mp hcut
    obtain rfl : mid = mid' := Option.some.inj (hbefore.symm.trans hbefore')
    -- what is complete so early is of the same kind
    have hsame := (run_kind? hafter (finish_kind? hcomplete)).symm.trans (finish_kind? hfinish)
    rw [Option.some.injEq] at hsame
    obtain ⟨b, rfl, hroot⟩ := eq_between_of_finish hcomplete (hsame ▸ hkind)
    have hgaps := isGap_of_run hroot hafter hfinish
    cases hr : r.getLast? with
    | none =>
      rw [List.getLast?_eq_none_iff.mp hr, List.append_nil] at hne
      exact hne rfl
    | some c =>
      refine hlast c ?_ (hgaps c (List.mem_of_getLast? hr))
      rw [List.getLast?_append, hr]
      rfl

/-- An object begins with the first opening brace of its text. -/
theorem parse?_dropWhile_brace (h : parse? d s = some v) (hkind : v.kind = .object) :
    parse? d (s.dropWhile (· ≠ '\x7b')) = some v := by
  induction s with
  | nil => exact h
  | cons c s ih =>
    obtain ⟨st, hrun, hfinish⟩ := parse?_eq_some_iff.mp h
    obtain ⟨next, hnext, hrest⟩ := run_cons_eq_some_iff.mp hrun
    rcases step_start_cases hnext with ⟨hgap, rfl⟩ | hfirst
    · have hc : c ≠ '\x7b' := by
        rintro rfl
        exact absurd hgap (by decide)
      rw [List.dropWhile_cons_of_pos (by simpa using hc)]
      exact ih (parse?_eq_some_iff.mpr ⟨st, hrest, hfinish⟩)
    · have hsame := (run_kind? hrest hfirst).symm.trans (finish_kind? hfinish)
      rw [hkind] at hsame
      have hc : c = '\x7b' := by
        by_contra hc
        by_cases harray : c = '['
        · simp [harray] at hsame
        · simp [harray, hc] at hsame
      subst hc
      exact h

end RepoAudit.Json
