import Mathlib.Data.List.Infix
import RepoAudit.Address
import RepoAudit.Proofs.Text.Splitting

/-!
# The grammar of addresses

An expression for addresses has a form for the owner and a form for the name: the site, an owner, a
slash, the shortest name that leaves an ending, and the ending. The structure and the full grammar
are this one expression with two pairs of forms.

* `Spells` — what it means that an expression matches a text with an owner and a name;
* `Structured`, `Grammatical` — the expressions that checking and parsing use;
* `segments?_eq_some_iff` — the segments that are cut out of a text are those of the structure;
* `structured_iff`, `grammatical_iff` — on a text without a line feed at its end, cutting decides
  both expressions.
-/

namespace RepoAudit.Address

/-- An ending, or an ending and one line feed after it. -/
def IsEnd (cs : List Char) : Prop := holdsUpToNewline isEnding cs

/-- The expression with these forms for the owner and the name matches a text from its first
character on, and finds this owner and this name. -/
def Spells (ownerForm nameForm : List Char → Prop) (cs owner name : List Char) : Prop :=
  ∃ ending, cs = site.toList ++ (owner ++ '/' :: (name ++ ending)) ∧ ownerForm owner ∧
    nameForm name ∧ IsEnd ending ∧
    ∀ shorter rest, shorter ++ rest = name ++ ending → nameForm shorter → IsEnd rest →
      name.length ≤ shorter.length

/-- A segment of a path. -/
def IsSegment (cs : List Char) : Prop := cs ≠ [] ∧ '/' ∉ cs

/-- The expression for the structure: any two segments. -/
def Structured : List Char → List Char → List Char → Prop := Spells IsSegment IsSegment

/-- The expression for the full grammar: an owner and a name. -/
def Grammatical : List Char → List Char → List Char → Prop :=
  Spells (fun cs => isOwner cs) fun cs => isName cs

/-! ### Characters of the forms -/

/-- An owner is made of letters, digits and hyphens. -/
theorem char_of_isOwner {cs : List Char} {c : Char} (h : isOwner cs) (hc : c ∈ cs) :
    c = '-' ∨ c.isAlphanum = true := by
  rw [← Text.joinWith_splitOn '-' cs] at hc
  rcases Text.mem_joinWith hc with hsep | ⟨run, hrun, hmem⟩
  · exact .inl hsep
  · have hform := List.all_eq_true.mp h run hrun
    rw [Bool.and_eq_true, List.all_eq_true] at hform
    exact .inr (hform.2 c hmem)

theorem not_mem_of_isOwner {cs : List Char} {c : Char} (h : isOwner cs) (hyphen : c ≠ '-')
    (halnum : c.isAlphanum = false) : c ∉ cs := by
  intro hc
  rcases char_of_isOwner h hc with rfl | hform
  · exact hyphen rfl
  · rw [halnum] at hform
    cases hform

theorem ne_nil_of_isOwner {cs : List Char} (h : isOwner cs) : cs ≠ [] := by
  rintro rfl
  exact absurd h (by decide)

theorem not_mem_of_isName {cs : List Char} {c : Char} (h : isName cs) (hc : isNameChar c = false) :
    c ∉ cs := by
  intro hmem
  rw [isName, Bool.and_eq_true, List.all_eq_true] at h
  rw [h.2 c hmem] at hc
  cases hc

theorem ne_nil_of_isName {cs : List Char} (h : isName cs) : cs ≠ [] := by
  rintro rfl
  exact absurd h (by decide)

theorem isSegment_of_isOwner {cs : List Char} (h : isOwner cs) : IsSegment cs :=
  ⟨ne_nil_of_isOwner h, not_mem_of_isOwner h (by decide) (by decide)⟩

theorem isSegment_of_isName {cs : List Char} (h : isName cs) : IsSegment cs :=
  ⟨ne_nil_of_isName h, not_mem_of_isName h (by decide)⟩

/-- The beginning of a name is a name. -/
theorem isName_of_beginning {cs ds : List Char} (h : isName ds) (hpre : cs <+: ds) (hne : cs ≠ []) :
    isName cs := by
  rw [isName, Bool.and_eq_true, List.all_eq_true] at h ⊢
  exact ⟨by simpa using hne, fun c hc => h.2 c (hpre.subset hc)⟩

/-! ### Cutting -/

/-- A text is cut at its first slash. -/
theorem cutFirst?_slash_eq_some_iff {cs before after : List Char} :
    Text.cutFirst? ['/'] cs = some (before, after) ↔ cs = before ++ '/' :: after ∧ '/' ∉ before := by
  induction cs generalizing before with
  | nil => simp [Text.cutFirst?]
  | cons c r ih =>
    rw [Text.cutFirst?]
    by_cases hc : c = '/'
    · subst hc
      rw [if_pos (by simp [List.isPrefixOf])]
      cases before with
      | nil => simp
      | cons b before =>
        simp only [List.length_singleton, List.drop_one, List.tail_cons, Option.some.injEq,
          Prod.mk.injEq, List.cons_append, List.cons.injEq, List.mem_cons, not_or]
        exact iff_of_false (fun h => absurd h.1 (by simp)) fun h => h.2.1 h.1.1
    · rw [if_neg (by simpa [List.isPrefixOf] using fun h => hc h.symm), Option.map_eq_some_iff]
      cases before with
      | nil => simp [hc]
      | cons b before =>
        simp only [Prod.exists, Prod.mk.injEq, List.cons.injEq, List.cons_append, List.mem_cons,
          not_or]
        constructor
        · rintro ⟨x, y, hcut, ⟨rfl, rfl⟩, rfl⟩
          obtain ⟨rfl, hslash⟩ := ih.mp hcut
          exact ⟨⟨rfl, rfl⟩, fun h => hc h.symm, hslash⟩
        · rintro ⟨⟨rfl, rfl⟩, -, hslash⟩
          exact ⟨before, after, ih.mpr ⟨rfl, hslash⟩, ⟨rfl, rfl⟩, rfl⟩

/-- The segment before an ending is the shortest one that leaves an ending. -/
theorem segmentBeforeEnding?_eq_some_iff {cs name : List Char} :
    segmentBeforeEnding? cs = some name ↔
      ∃ ending, cs = name ++ ending ∧ IsSegment name ∧ isEnding ending = true ∧
        ∀ shorter rest, shorter ++ rest = cs → IsSegment shorter → isEnding rest = true →
          name.length ≤ shorter.length := by
  induction cs generalizing name with
  | nil =>
    refine iff_of_false (by simp [segmentBeforeEnding?]) ?_
    rintro ⟨ending, hcs, hname, -, -⟩
    exact hname.1 (List.append_eq_nil_iff.mp hcs.symm).1
  | cons c r ih =>
    rw [segmentBeforeEnding?]
    split
    · -- nothing starts with a slash
      next hc =>
      refine iff_of_false (by simp) ?_
      rintro ⟨ending, hcs, ⟨hne, hslash⟩, -, -⟩
      obtain ⟨d, name, rfl⟩ := List.exists_cons_of_ne_nil hne
      rw [List.cons_append, List.cons.injEq] at hcs
      exact hslash (List.mem_cons.mpr (.inl (hc ▸ hcs.1)))
    · next hc =>
      split
      · -- one character is as short as a segment can be
        next hend =>
        have hfirst : IsSegment [c] := ⟨by simp, by simpa using fun h => hc h.symm⟩
        constructor
        · rintro ⟨⟩
          refine ⟨r, rfl, hfirst, hend, fun shorter rest _ hshorter _ => ?_⟩
          exact List.length_pos_iff.mpr hshorter.1
        · rintro ⟨ending, hcs, hname, -, hshortest⟩
          have hle := hshortest [c] r rfl hfirst hend
          obtain ⟨d, name, rfl⟩ := List.exists_cons_of_ne_nil hname.1
          cases name with
          | nil =>
            rw [List.cons_append, List.cons.injEq] at hcs
            rw [hcs.1]
          | cons e name => simp at hle
      · next hend =>
        rw [Option.map_eq_some_iff]
        constructor
        · rintro ⟨tail, htail, rfl⟩
          obtain ⟨ending, rfl, ⟨-, hslash⟩, hending, hshortest⟩ := ih.mp htail
          refine ⟨ending, rfl, ⟨by simp, ?_⟩, hending, fun shorter rest hsplit hshorter hrest => ?_⟩
          · simpa [hslash] using fun h => hc h.symm
          · obtain ⟨d, shorter, rfl⟩ := List.exists_cons_of_ne_nil hshorter.1
            rw [List.cons_append, List.cons.injEq] at hsplit
            obtain ⟨rfl, hsplit⟩ := hsplit
            cases shorter with
            | nil =>
              rw [List.nil_append] at hsplit
              exact absurd (hsplit ▸ hrest) hend
            | cons e shorter =>
              have hle := hshortest (e :: shorter) rest hsplit
                ⟨by simp, fun h => hshorter.2 (List.mem_cons_of_mem _ h)⟩ hrest
              exact Nat.succ_le_succ hle
        · rintro ⟨ending, hcs, ⟨hne, hslash⟩, hending, hshortest⟩
          obtain ⟨d, name, rfl⟩ := List.exists_cons_of_ne_nil hne
          rw [List.cons_append, List.cons.injEq] at hcs
          obtain ⟨rfl, rfl⟩ := hcs
          have hname : name ≠ [] := by
            rintro rfl
            exact hend hending
          refine ⟨name, ih.mpr ⟨ending, rfl,
            ⟨hname, fun h => hslash (List.mem_cons_of_mem _ h)⟩, hending,
            fun shorter rest hsplit hshorter hrest => ?_⟩, rfl⟩
          have hle := hshortest (c :: shorter) rest (by rw [List.cons_append, hsplit])
            ⟨by simp, by simpa [hshorter.2] using fun h => hc h.symm⟩ hrest
          exact Nat.le_of_succ_le_succ hle

theorem afterSite?_eq_some_iff {cs rest : List Char} :
    afterSite? cs = some rest ↔ cs = site.toList ++ rest := by
  rw [afterSite?]
  split
  · next hpre =>
    obtain ⟨tail, rfl⟩ := List.isPrefixOf_iff_prefix.mp hpre
    rw [← String.length_toList, List.drop_left]
    simp [eq_comm]
  · next hpre =>
    refine iff_of_false (by simp) ?_
    rintro rfl
    exact hpre (List.isPrefixOf_iff_prefix.mpr (List.prefix_append _ _))

/-- The two segments after the site. -/
theorem segments?_eq_some_iff {rest owner name : List Char} :
    segments? rest = some (owner, name) ↔
      ∃ tail, rest = owner ++ '/' :: tail ∧ IsSegment owner ∧
        segmentBeforeEnding? tail = some name := by
  rw [segments?]
  cases hcut : Text.cutFirst? ['/'] rest with
  | none =>
    refine iff_of_false (by simp) ?_
    rintro ⟨tail, hrest, howner, -⟩
    rw [cutFirst?_slash_eq_some_iff.mpr ⟨hrest, howner.2⟩] at hcut
    cases hcut
  | some cut =>
    obtain ⟨before, after⟩ := cut
    obtain ⟨rfl, hslash⟩ := cutFirst?_slash_eq_some_iff.mp hcut
    -- the first slash is where the owner ends
    have hunique : ∀ tail, before ++ '/' :: after = owner ++ '/' :: tail → '/' ∉ owner →
        before = owner ∧ after = tail := by
      intro tail hsplit howner
      have hsame := cutFirst?_slash_eq_some_iff.mpr ⟨hsplit, howner⟩
      rw [hcut, Option.some.injEq, Prod.mk.injEq] at hsame
      exact hsame
    dsimp only
    split
    · next hempty =>
      rw [List.isEmpty_iff] at hempty
      subst hempty
      refine iff_of_false (by simp) ?_
      rintro ⟨tail, hsplit, howner, -⟩
      exact howner.1 (hunique tail hsplit howner.2).1.symm
    · next hempty =>
      rw [List.isEmpty_iff] at hempty
      rw [Option.map_eq_some_iff]
      constructor
      · rintro ⟨name', hname, heq⟩
        rw [Prod.mk.injEq] at heq
        obtain ⟨rfl, rfl⟩ := heq
        exact ⟨after, rfl, ⟨hempty, hslash⟩, hname⟩
      · rintro ⟨tail, hsplit, howner, hname⟩
        obtain ⟨rfl, rfl⟩ := hunique tail hsplit howner.2
        exact ⟨name, hname, rfl⟩

/-! ### Deciding the expressions -/

/-- Without a line feed at the end of the text, an end is an ending. -/
theorem isEnd_iff {cs ending : List Char} (before : List Char) (hcs : cs.getLast? ≠ some '\n')
    (h : cs = before ++ ending) : IsEnd ending ↔ isEnding ending = true := by
  rw [IsEnd, holdsUpToNewline, Bool.or_eq_true, or_iff_left_iff_imp, Bool.and_eq_true, beq_iff_eq]
  rintro ⟨hlast, -⟩
  refine absurd ?_ hcs
  rw [h, List.getLast?_append, hlast]
  rfl

/-- The structure of a text is found by cutting. -/
theorem structured_iff {cs owner name : List Char} (hcs : cs.getLast? ≠ some '\n') :
    Structured cs owner name ↔
      ∃ rest, afterSite? cs = some rest ∧ segments? rest = some (owner, name) := by
  simp only [afterSite?_eq_some_iff, segments?_eq_some_iff, segmentBeforeEnding?_eq_some_iff]
  -- every cut of the part after the owner leaves an end of the whole text
  have hend : ∀ tail, cs = site.toList ++ (owner ++ '/' :: tail) → ∀ shorter rest,
      shorter ++ rest = tail → (IsEnd rest ↔ isEnding rest = true) := by
    rintro tail htail shorter rest rfl
    refine isEnd_iff (site.toList ++ (owner ++ '/' :: shorter)) hcs ?_
    rw [htail]
    simp
  constructor
  · rintro ⟨ending, htext, howner, hname, hending, hshortest⟩
    refine ⟨_, htext, name ++ ending, rfl, howner, ending, rfl, hname,
      (hend _ htext name ending rfl).mp hending, fun shorter rest hsplit hshorter hrest => ?_⟩
    exact hshortest shorter rest hsplit hshorter ((hend _ htext shorter rest hsplit).mpr hrest)
  · rintro ⟨_, htext, _, rfl, howner, ending, rfl, hname, hending, hshortest⟩
    refine ⟨ending, htext, howner, hname, (hend _ htext name ending rfl).mpr hending,
      fun shorter rest hsplit hshorter hrest => ?_⟩
    exact hshortest shorter rest hsplit hshorter ((hend _ htext shorter rest hsplit).mp hrest)

/-- The full grammar is the structure with an owner and a name for its segments. -/
theorem grammatical_iff_structured {cs owner name : List Char} :
    Grammatical cs owner name ↔ Structured cs owner name ∧ isOwner owner ∧ isName name := by
  constructor
  · rintro ⟨ending, htext, howner, hname, hending, hshortest⟩
    refine ⟨⟨ending, htext, isSegment_of_isOwner howner, isSegment_of_isName hname, hending,
      fun shorter rest hsplit hshorter hrest => ?_⟩, howner, hname⟩
    -- a shorter segment would be the beginning of the name, and so a name
    by_contra hlt
    have hpre : shorter <+: name := List.prefix_of_prefix_length_le (hsplit ▸ List.prefix_append _ _)
      (List.prefix_append _ _) (by omega)
    exact hlt (hshortest shorter rest hsplit (isName_of_beginning hname hpre hshorter.1) hrest)
  · rintro ⟨⟨ending, htext, -, -, hending, hshortest⟩, howner, hname⟩
    exact ⟨ending, htext, howner, hname, hending, fun shorter rest hsplit hshorter hrest =>
      hshortest shorter rest hsplit (isSegment_of_isName hshorter) hrest⟩

/-- The full grammar is decided by cutting and looking at the segments. -/
theorem grammatical_iff {cs owner name : List Char} (hcs : cs.getLast? ≠ some '\n') :
    Grammatical cs owner name ↔
      locator? cs = some ⟨String.ofList owner, String.ofList name⟩ := by
  rw [grammatical_iff_structured, structured_iff hcs, locator?]
  cases afterSite? cs with
  | none => simp
  | some rest =>
    simp only [Option.some.injEq, exists_eq_left']
    cases segments? rest with
    | none => simp
    | some cut =>
      obtain ⟨o, n⟩ := cut
      simp only [Option.some.injEq, Prod.mk.injEq]
      split
      · next hforms =>
        rw [Bool.and_eq_true] at hforms
        simp only [Option.some.injEq, Repository.mk.injEq, String.ofList_inj]
        refine ⟨fun h => h.1, ?_⟩
        rintro ⟨rfl, rfl⟩
        exact ⟨⟨rfl, rfl⟩, hforms⟩
      · next hforms =>
        refine iff_of_false ?_ (by simp)
        rintro ⟨⟨rfl, rfl⟩, hforms'⟩
        exact hforms (Bool.and_eq_true .. ▸ hforms')

/-- A repository that is read has an owner and a name of their forms. -/
theorem forms_of_parse {url : String} {r : Repository} (h : parse url = .ok r) :
    isOwner r.owner.toList ∧ isName r.name.toList := by
  rw [parse] at h
  split at h
  · cases h
  split at h
  · cases h
  next repository hlocator =>
  obtain rfl := Except.ok.inj h
  rw [locator?] at hlocator
  split at hlocator
  · cases hlocator
  split at hlocator
  · cases hlocator
  split at hlocator
  · next hforms =>
    obtain rfl := Option.some.inj hlocator
    simpa [Bool.and_eq_true] using hforms
  · cases hlocator

end RepoAudit.Address
