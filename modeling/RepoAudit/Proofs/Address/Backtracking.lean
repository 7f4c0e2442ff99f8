import RepoAudit.Proofs.Address.Spelling

/-!
# The structure of an address by backtracking

The structure of an address is written as an expression: the site, a run of characters other than a
slash, a slash, a run as short as possible, an optional `.git`, an optional slash and the end of the
text. An expression is tried part by part; each part has several ways to go on, and the first way
through all parts is the match. Here this search is written out, and compared with cutting.

* `takeText`, `takeOptional`, `takeLongRun`, `takeShortRun` — the ways of one part, in the order in
  which they are tried, each with the text that it leaves;
* `structureMatches` — all ways through the expression, with the two runs that they find;
* `head?_structureMatches` — **the first way through the expression finds the segments that cutting
  finds**.
-/

namespace RepoAudit.Address

variable {α : Type} {s rest tail owner w : List Char}

/-! ### The parts of an expression -/

/-- A fixed text is taken in one way, or not at all. -/
def takeText (w s : List Char) : List (List Char) :=
  if w.isPrefixOf s then [s.drop w.length] else []

/-- An optional text is taken if possible; the second way is to leave it. -/
def takeOptional (w s : List Char) : List (List Char) := takeText w s ++ [s]

/-- A run without slashes, the longest first: the runs and what each of them leaves. -/
def takeLongRun : List Char → List (List Char × List Char)
  | [] => []
  | c :: r =>
    if c = '/' then []
    else (takeLongRun r).map (fun x => (c :: x.1, x.2)) ++ [([c], r)]

/-- A run without slashes, the shortest first. -/
def takeShortRun : List Char → List (List Char × List Char)
  | [] => []
  | c :: r =>
    if c = '/' then []
    else ([c], r) :: (takeShortRun r).map fun x => (c :: x.1, x.2)

/-- The end of a text, before one line feed or after everything. -/
def atEnd (s : List Char) : Bool := s.isEmpty || s == ['\n']

/-- Whether the optional endings and the end of the text can follow. -/
def endFollows (s : List Char) : Bool :=
  ((takeOptional ".git".toList s).flatMap fun r => takeOptional ['/'] r).any atEnd

/-- The ways through the rest of the expression behind the slash after an owner. -/
def nameMatches (owner tail : List Char) : List (List Char × List Char) :=
  (takeShortRun tail).flatMap fun second =>
    if endFollows second.2 then [(owner, second.1)] else []

/-- Every way through the expression, in the order in which they are tried: the run for the owner and
the run for the name. -/
def structureMatches (s : List Char) : List (List Char × List Char) :=
  (takeText site.toList s).flatMap fun rest =>
    (takeLongRun rest).flatMap fun first => (takeText ['/'] first.2).flatMap (nameMatches first.1)

/-! ### What the parts take -/

theorem mem_takeText_iff : rest ∈ takeText w s ↔ s = w ++ rest := by
  rw [takeText]
  split
  · next hpre =>
    obtain ⟨tail, rfl⟩ := List.isPrefixOf_iff_prefix.mp hpre
    rw [List.drop_left, List.mem_singleton, List.append_cancel_left_eq]
    exact eq_comm
  · next hpre =>
    refine iff_of_false List.not_mem_nil ?_
    rintro rfl
    exact hpre (List.isPrefixOf_iff_prefix.mpr (List.prefix_append _ _))

theorem takeText_append (w rest : List Char) : takeText w (w ++ rest) = [rest] := by
  rw [takeText, if_pos (List.isPrefixOf_iff_prefix.mpr (List.prefix_append _ _)), List.drop_left]

theorem takeText_eq_nil (h : ∀ rest, s ≠ w ++ rest) : takeText w s = [] := by
  apply List.eq_nil_iff_forall_not_mem.mpr
  intro rest hrest
  exact h rest (mem_takeText_iff.mp hrest)

theorem mem_takeOptional_iff : rest ∈ takeOptional w s ↔ s = w ++ rest ∨ s = rest := by
  rw [takeOptional, List.mem_append, mem_takeText_iff, List.mem_singleton]
  exact or_congr_right eq_comm

theorem atEnd_iff : atEnd s = true ↔ s = [] ∨ s = ['\n'] := by
  rw [atEnd, Bool.or_eq_true, List.isEmpty_iff, beq_iff_eq]

/-- The ways to an end: an ending, then one line feed or nothing. -/
theorem endFollows_iff_spelled : endFollows s = true ↔
    ∃ ending last, isEnding ending = true ∧ (last = [] ∨ last = ['\n']) ∧ s = ending ++ last := by
  simp only [endFollows, List.any_eq_true, List.mem_flatMap, mem_takeOptional_iff, atEnd_iff]
  constructor
  · rintro ⟨last, ⟨r, rfl | rfl, rfl | rfl⟩, hlast⟩
    · exact ⟨".git/".toList, last, by decide, hlast, rfl⟩
    · exact ⟨".git".toList, r, by decide, hlast, rfl⟩
    · exact ⟨['/'], last, by decide, hlast, rfl⟩
    · exact ⟨[], s, by decide, hlast, rfl⟩
  · rintro ⟨ending, last, hend, hlast, rfl⟩
    simp only [isEnding, Bool.or_eq_true, List.isEmpty_iff, beq_iff_eq] at hend
    rcases hend with ((rfl | rfl) | rfl) | rfl
    · exact ⟨last, ⟨last, .inr rfl, .inr rfl⟩, hlast⟩
    · exact ⟨last, ⟨'/' :: last, .inr rfl, .inl rfl⟩, hlast⟩
    · exact ⟨last, ⟨last, .inl rfl, .inr rfl⟩, hlast⟩
    · exact ⟨last, ⟨'/' :: last, .inl rfl, .inl rfl⟩, hlast⟩

/-- What may follow the name is an ending, with one line feed after it or not. -/
theorem endFollows_iff : endFollows s = true ↔ IsEnd s := by
  rw [endFollows_iff_spelled, IsEnd, holdsUpToNewline, Bool.or_eq_true, Bool.and_eq_true, beq_iff_eq]
  constructor
  · rintro ⟨ending, last, hend, rfl | rfl, rfl⟩
    · rw [List.append_nil]
      exact .inl hend
    · rw [List.getLast?_concat, List.dropLast_concat]
      exact .inr ⟨rfl, hend⟩
  · rintro (hend | ⟨hlast, hend⟩)
    · exact ⟨s, [], hend, .inl rfl, (List.append_nil s).symm⟩
    · obtain ⟨ending, rfl⟩ := List.getLast?_eq_some_iff.mp hlast
      rw [List.dropLast_concat] at hend
      exact ⟨ending, ['\n'], hend, .inr rfl, rfl⟩

/-! ### The search as a whole -/

/-- Of the runs that stand before a slash, only the longest is followed by it. -/
theorem takeLongRun_flatMap (howner : IsSegment owner) (tail : List Char)
    (found : List Char → List Char → List α) :
    ((takeLongRun (owner ++ '/' :: tail)).flatMap fun first =>
      (takeText ['/'] first.2).flatMap (found first.1)) = found owner tail := by
  induction owner generalizing found with
  | nil => exact absurd rfl howner.1
  | cons c owner ih =>
    have hc : c ≠ '/' := fun h => howner.2 (h ▸ List.mem_cons_self)
    rw [List.cons_append, takeLongRun, if_neg hc, List.flatMap_append, List.flatMap_map,
      List.flatMap_singleton]
    cases owner with
    | nil =>
      rw [List.nil_append, takeLongRun, if_pos rfl, List.flatMap_nil, List.nil_append]
      show (takeText ['/'] (['/'] ++ tail)).flatMap (found [c]) = found [c] tail
      rw [takeText_append, List.flatMap_singleton]
    | cons d owner =>
      have hrest : IsSegment (d :: owner) :=
        ⟨List.cons_ne_nil _ _, fun h => howner.2 (List.mem_cons_of_mem _ h)⟩
      have hshort : takeText ['/'] (d :: owner ++ '/' :: tail) = [] := by
        apply takeText_eq_nil
        intro rest heq
        exact hrest.2 (List.mem_cons.mpr (.inl (List.cons.inj heq).1.symm))
      rw [hshort, List.flatMap_nil, List.append_nil]
      exact ih hrest fun run => found (c :: run)

/-- Without a slash there is no way on. -/
theorem takeLongRun_flatMap_of_not_mem (hslash : '/' ∉ s)
    (found : List Char → List Char → List α) :
    ((takeLongRun s).flatMap fun first => (takeText ['/'] first.2).flatMap (found first.1)) = [] := by
  induction s generalizing found with
  | nil => rfl
  | cons c r ih =>
    rw [List.mem_cons, not_or] at hslash
    have hshort : takeText ['/'] r = [] := by
      apply takeText_eq_nil
      rintro rest rfl
      exact hslash.2 List.mem_cons_self
    rw [takeLongRun, if_neg (Ne.symm hslash.1), List.flatMap_append, List.flatMap_map,
      List.flatMap_singleton, hshort, List.flatMap_nil, List.append_nil]
    exact ih hslash.2 fun run => found (c :: run)

/-- The shortest run that the end can follow is the segment before an ending. -/
theorem findSome?_takeShortRun (hlast : tail.getLast? ≠ some '\n') :
    ((takeShortRun tail).findSome? fun second =>
      if endFollows second.2 then some second.1 else none) = segmentBeforeEnding? tail := by
  induction tail with
  | nil => rfl
  | cons c r ih =>
    have hend : endFollows r = isEnding r := by
      rw [Bool.eq_iff_iff, endFollows_iff]
      exact isEnd_iff [c] hlast rfl
    rw [takeShortRun, segmentBeforeEnding?]
    split
    · rfl
    by_cases hr : isEnding r = true
    · rw [List.findSome?_cons, if_pos hr]
      simp only [hend, hr, if_true]
    · have hrest : r.getLast? ≠ some '\n' := by
        intro h
        rw [List.getLast?_cons, h] at hlast
        exact hlast rfl
      rw [List.findSome?_cons, if_neg hr, ← ih hrest, List.findSome?_map, List.map_findSome?]
      simp only [hend, hr, Bool.false_eq_true, if_false]
      congr 1
      funext second
      show (if endFollows second.2 = true then some (c :: second.1) else none) =
        Option.map (c :: ·) (if endFollows second.2 = true then some second.1 else none)
      split <;> rfl

theorem head?_nameMatches (hlast : tail.getLast? ≠ some '\n') (owner : List Char) :
    (nameMatches owner tail).head? = (segmentBeforeEnding? tail).map fun name => (owner, name) := by
  rw [nameMatches, ← findSome?_takeShortRun hlast, List.head?_flatMap, List.map_findSome?]
  congr 1
  funext second
  show List.head? (if endFollows second.2 = true then [(owner, second.1)] else []) =
    Option.map (owner, ·) (if endFollows second.2 = true then some second.1 else none)
  split <;> rfl

/-- **Backtracking finds what cutting finds.** On a text without a line feed at its end, the first way
through the expression has the segments that are cut out behind the site, and there is a way through
only if there are such segments. -/
theorem head?_structureMatches (hlast : s.getLast? ≠ some '\n') :
    (structureMatches s).head? = (afterSite? s).bind segments? := by
  cases hsite : afterSite? s with
  | none =>
    have hnone : takeText site.toList s = [] := by
      apply takeText_eq_nil
      intro rest hrest
      rw [afterSite?_eq_some_iff.mpr hrest] at hsite
      cases hsite
    rw [structureMatches, hnone]
    rfl
  | some rest =>
    obtain rfl := afterSite?_eq_some_iff.mp hsite
    rw [structureMatches, takeText_append, List.flatMap_singleton, Option.bind_some, segments?]
    cases hcut : Text.cutFirst? ['/'] rest with
    | none =>
      have hslash : '/' ∉ rest := by
        intro hmem
        obtain ⟨before, after, rfl, hbefore⟩ := List.eq_append_cons_of_mem hmem
        rw [cutFirst?_slash_eq_some_iff.mpr ⟨rfl, hbefore⟩] at hcut
        cases hcut
      rw [takeLongRun_flatMap_of_not_mem hslash]
      rfl
    | some cut =>
      obtain ⟨owner, tail⟩ := cut
      obtain ⟨rfl, hslash⟩ := cutFirst?_slash_eq_some_iff.mp hcut
      dsimp only
      by_cases hempty : owner = []
      · subst hempty
        rfl
      · have hrest : tail.getLast? ≠ some '\n' := by
          intro h
          apply hlast
          rw [List.getLast?_append, List.getLast?_append, List.getLast?_cons, h]
          rfl
        rw [takeLongRun_flatMap ⟨hempty, hslash⟩, if_neg (by simpa using hempty),
          head?_nameMatches hrest]

end RepoAudit.Address
