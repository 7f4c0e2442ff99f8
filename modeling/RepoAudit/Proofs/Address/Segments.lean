import RepoAudit.Proofs.Address.Backtracking
import RepoAudit.Proofs.Address.Canonical

/-!
# The check of an address by splitting

The check finds the owner and the name of an address by the shortest segment that leaves an ending.
Splitting at the slash says the same without a search: behind the site, and without one slash at the
end, there must be two segments, and the name is the second of them without one `.git` at its end.

* `stem` — a segment without one `.git` at its end, unless nothing else is in it;
* `TwoSegments` — a text is the site and two segments;
* `segmentBeforeEnding?_eq_some_iff_stem` — the shortest segment before an ending is the stem;
* `check_eq_verdict` — what the check says of two segments;
* `check_by_splitting` — **when each reason of the check applies, said by splitting, and that the
  expression for the structure finds the same two texts**.
-/

namespace RepoAudit.Address

variable {s tail rest owner owner' last last' name : List Char} {url : String}

/-- A segment without one `.git` at its end; the segment `.git` stays as it is. -/
def stem (last : List Char) : List Char :=
  if last = ".git".toList then last else dropEnding ".git".toList last

/-- A text is the site and, one slash at its end left out, two segments with a slash between them. -/
def TwoSegments (s owner last : List Char) : Prop :=
  IsSegment owner ∧ IsSegment last ∧
    ∃ rest, s = site.toList ++ rest ∧ dropEnding ['/'] rest = owner ++ '/' :: last

/-- What is said of an owner and a name: the owner is looked at first. -/
def verdict (owner name : List Char) : Except AddressError (String × String) :=
  if acceptsOwner owner = false then .error (.owner (String.ofList owner))
  else if acceptsName name = false then .error (.name (String.ofList name))
  else .ok (String.ofList owner, String.ofList name)

/-! ### The name -/

theorem not_slash_suffix_of_isSegment (h : IsSegment last) : ¬ ['/'] <:+ last := by
  have hsuffix := not_slash_suffix h.1 h.2 []
  rwa [List.nil_append] at hsuffix

/-- A slash behind a text that does not end with one is dropped, if it is there. -/
theorem dropEnding_slash {slash : String} (h : ¬ ['/'] <:+ s) (hslash : slash ∈ ["", "/"]) :
    dropEnding ['/'] (s ++ slash.toList) = s :=
  dropEnding_append (show ¬ "/".toList <:+ s from h) hslash

/-- A text is what is left of it, with or without the slash that is dropped. -/
theorem exists_slash_append (s : List Char) :
    ∃ slash ∈ ["", "/"], s = dropEnding ['/'] s ++ slash.toList := by
  rw [dropEnding]
  split
  · next hsuffix =>
    obtain ⟨before, rfl⟩ := List.isSuffixOf_iff_suffix.mp hsuffix
    refine ⟨"/", by simp, ?_⟩
    rw [List.length_append, Nat.add_sub_cancel, List.take_left]
    rfl
  · exact ⟨"", by simp, (List.append_nil s).symm⟩

/-- A segment of which no shorter segment leaves an ending is its own stem. -/
theorem stem_eq_self (h : IsSegment name)
    (hshortest : ∀ shorter, shorter ++ ".git".toList = name → ¬ IsSegment shorter) :
    stem name = name := by
  rw [stem]
  split
  · rfl
  · next hne =>
    rw [dropEnding, if_neg]
    intro hsuffix
    obtain ⟨shorter, rfl⟩ := List.isSuffixOf_iff_suffix.mp hsuffix
    apply hshortest shorter rfl
    constructor
    · rintro rfl
      exact hne rfl
    · exact fun hmem => h.2 (List.mem_append_left _ hmem)

theorem stem_append (h : name ≠ []) : stem (name ++ ".git".toList) = name := by
  have hne : name ++ ".git".toList ≠ ".git".toList := by
    intro heq
    exact h (List.append_left_eq_self.mp heq)
  rw [stem, if_neg hne, dropEnding, if_pos (List.isSuffixOf_iff_suffix.mpr (List.suffix_append _ _)),
    List.length_append, Nat.add_sub_cancel, List.take_left]

/-- Where some segment leaves an ending, a shortest one is found. -/
theorem isSome_segmentBeforeEnding? {ending : List Char} (hname : IsSegment name)
    (hend : isEnding ending = true) : (segmentBeforeEnding? (name ++ ending)).isSome := by
  induction name with
  | nil => exact absurd rfl hname.1
  | cons c name ih =>
    have hc : c ≠ '/' := fun h => hname.2 (h ▸ List.mem_cons_self)
    rw [List.cons_append, segmentBeforeEnding?, if_neg hc]
    split
    · rfl
    · next hnot =>
      have hne : name ≠ [] := by
        rintro rfl
        exact hnot hend
      rw [Option.isSome_map]
      exact ih ⟨hne, fun h => hname.2 (List.mem_cons_of_mem _ h)⟩

/-- The shortest segment before an ending is the stem of what stands before the last slash. -/
theorem segmentBeforeEnding?_eq_some_iff_stem :
    segmentBeforeEnding? tail = some name ↔
      IsSegment (dropEnding ['/'] tail) ∧ name = stem (dropEnding ['/'] tail) := by
  -- what is found is the stem
  have hfound : ∀ name, segmentBeforeEnding? tail = some name →
      IsSegment (dropEnding ['/'] tail) ∧ name = stem (dropEnding ['/'] tail) := by
    intro name h
    obtain ⟨ending, rfl, hname, hending, hshortest⟩ := segmentBeforeEnding?_eq_some_iff.mp h
    obtain ⟨suffix, hsuffix, slash, hslash, rfl⟩ := isEnding_iff.mp hending
    have hsegment : IsSegment (name ++ suffix.toList) := by
      refine ⟨fun hnil => hname.1 (List.append_eq_nil_iff.mp hnil).1, ?_⟩
      rw [List.mem_append, not_or]
      refine ⟨hname.2, ?_⟩
      rw [List.mem_pair] at hsuffix
      rcases hsuffix with rfl | rfl <;> decide
    have hdrop : dropEnding ['/'] (name ++ (suffix.toList ++ slash.toList)) =
        name ++ suffix.toList := by
      rw [← List.append_assoc]
      exact dropEnding_slash (not_slash_suffix_of_isSegment hsegment) hslash
    rw [hdrop]
    refine ⟨hsegment, ?_⟩
    rw [List.mem_pair] at hsuffix
    rcases hsuffix with rfl | rfl
    · rw [String.toList_empty, List.append_nil]
      refine (stem_eq_self hname fun shorter hsplit hshorter => ?_).symm
      -- a shorter segment would have been found
      have hle := hshortest shorter (".git".toList ++ slash.toList)
        (by rw [← hsplit, String.toList_empty, List.nil_append, List.append_assoc]) hshorter
        (isEnding_iff.mpr ⟨".git", by simp, slash, hslash, rfl⟩)
      rw [← hsplit, List.length_append] at hle
      have hlength : ".git".toList.length = 4 := rfl
      omega
    · exact (stem_append hname.1).symm
  refine ⟨hfound name, ?_⟩
  rintro ⟨hsegment, rfl⟩
  obtain ⟨slash, hslash, htail⟩ := exists_slash_append tail
  have hend : isEnding slash.toList = true := isEnding_iff.mpr ⟨"", by simp, slash, hslash, rfl⟩
  have hsome := isSome_segmentBeforeEnding? hsegment hend
  rw [← htail] at hsome
  obtain ⟨name, hname⟩ := Option.isSome_iff_exists.mp hsome
  rw [hname, (hfound name hname).2]

/-! ### Two segments -/

/-- Dropping a slash leaves the owner alone, unless nothing follows it. -/
theorem dropEnding_slash_append (howner : IsSegment owner) :
    dropEnding ['/'] (owner ++ '/' :: tail) = owner ++ '/' :: last ↔
      tail ≠ [] ∧ dropEnding ['/'] tail = last := by
  cases tail with
  | nil =>
    have hdrop : dropEnding ['/'] (owner ++ "/".toList) = owner :=
      dropEnding_slash (not_slash_suffix_of_isSegment howner) (by simp)
    refine iff_of_false ?_ (fun h => h.1 rfl)
    show ¬ dropEnding ['/'] (owner ++ "/".toList) = owner ++ '/' :: last
    rw [hdrop]
    intro heq
    apply howner.2
    rw [heq]
    exact List.mem_append_right _ List.mem_cons_self
  | cons c r =>
    obtain ⟨slash, hslash, hsplit⟩ := exists_slash_append (c :: r)
    have hdrop : dropEnding ['/'] (owner ++ '/' :: c :: r) =
        owner ++ '/' :: dropEnding ['/'] (c :: r) := by
      rw [dropEnding, dropEnding]
      have hiff : ['/'] <:+ owner ++ '/' :: c :: r ↔ ['/'] <:+ c :: r := by
        rw [List.singleton_suffix_iff_getLast?_eq_some, List.singleton_suffix_iff_getLast?_eq_some,
          List.getLast?_append, List.getLast?_cons_cons, List.getLast?_cons]
        rfl
      by_cases hsuffix : ['/'] <:+ c :: r
      · rw [if_pos (List.isSuffixOf_iff_suffix.mpr hsuffix),
          if_pos (List.isSuffixOf_iff_suffix.mpr (hiff.mpr hsuffix)), List.take_append]
        simp
      · rw [if_neg (mt List.isSuffixOf_iff_suffix.mp hsuffix),
          if_neg (mt List.isSuffixOf_iff_suffix.mp (mt hiff.mp hsuffix))]
    rw [hdrop, List.append_cancel_left_eq, List.cons.injEq]
    simp

/-- Cutting finds an owner and a name exactly where two segments stand. -/
theorem segments?_eq_some_iff_stem :
    segments? rest = some (owner, name) ↔
      ∃ last, IsSegment owner ∧ IsSegment last ∧ dropEnding ['/'] rest = owner ++ '/' :: last ∧
        name = stem last := by
  rw [segments?_eq_some_iff]
  constructor
  · rintro ⟨tail, rfl, howner, hname⟩
    obtain ⟨hsegment, rfl⟩ := segmentBeforeEnding?_eq_some_iff_stem.mp hname
    refine ⟨_, howner, hsegment, (dropEnding_slash_append howner).mpr ⟨?_, rfl⟩, rfl⟩
    rintro rfl
    exact hsegment.1 rfl
  · rintro ⟨last, howner, hlast, hdrop, rfl⟩
    obtain ⟨slash, hslash, hsplit⟩ := exists_slash_append rest
    rw [hdrop, List.append_assoc, List.cons_append] at hsplit
    refine ⟨last ++ slash.toList, hsplit, howner, ?_⟩
    have htail : dropEnding ['/'] (last ++ slash.toList) = last :=
      dropEnding_slash (not_slash_suffix_of_isSegment hlast) hslash
    rw [segmentBeforeEnding?_eq_some_iff_stem, htail]
    exact ⟨hlast, rfl⟩

theorem exists_twoSegments_iff :
    (∃ last, TwoSegments s owner last ∧ name = stem last) ↔
      (afterSite? s).bind segments? = some (owner, name) := by
  rw [Option.bind_eq_some_iff]
  simp only [afterSite?_eq_some_iff, segments?_eq_some_iff_stem]
  constructor
  · rintro ⟨last, ⟨howner, hlast, rest, hs, hdrop⟩, hname⟩
    exact ⟨rest, hs, last, howner, hlast, hdrop, hname⟩
  · rintro ⟨rest, hs, last, howner, hlast, hdrop, hname⟩
    exact ⟨last, ⟨howner, hlast, rest, hs, hdrop⟩, hname⟩

/-! ### The check -/

/-- What the check says of two segments. -/
theorem check_eq_verdict (h : TwoSegments (Text.trim url.toList) owner last) :
    check url = verdict owner (stem last) := by
  obtain ⟨rest, hrest, hsegments⟩ :=
    Option.bind_eq_some_iff.mp (exists_twoSegments_iff.mp ⟨last, h, rfl⟩)
  have htext := afterSite?_eq_some_iff.mp hrest
  have hscheme : scheme.toList.isPrefixOf (Text.trim url.toList) = true := by
    rw [htext, List.isPrefixOf_iff_prefix]
    exact scheme_prefix_site rest
  have hempty : (Text.trim url.toList).isEmpty = false := by
    rw [htext]
    rfl
  simp only [check, hempty, hscheme, hrest, hsegments, verdict, Bool.false_eq_true, if_false,
    Bool.not_true, Bool.not_eq_true']

/-- The verdict on two segments is about one of them. -/
theorem verdict_ne (owner name : List Char) : verdict owner name ≠ .error .empty ∧
    verdict owner name ≠ .error .protocol ∧ verdict owner name ≠ .error .site ∧
      verdict owner name ≠ .error .form := by
  rw [verdict]
  split
  · simp
  · split <;> simp

/-- The check comes to one of five ends. -/
theorem check_cases (url : String) :
    let s := Text.trim url.toList
    (s = [] ∧ check url = .error .empty) ∨
      (s ≠ [] ∧ ¬ scheme.toList <+: s ∧ check url = .error .protocol) ∨
      (scheme.toList <+: s ∧ ¬ site.toList <+: s ∧ check url = .error .site) ∨
      (site.toList <+: s ∧ (∀ owner last, ¬ TwoSegments s owner last) ∧
        check url = .error .form) ∨
      ∃ owner last, TwoSegments s owner last ∧ check url = verdict owner (stem last) := by
  intro s
  by_cases htwo : ∃ owner last, TwoSegments s owner last
  · obtain ⟨owner, last, h⟩ := htwo
    exact .inr (.inr (.inr (.inr ⟨owner, last, h, check_eq_verdict h⟩)))
  have hnone : ∀ owner last, ¬ TwoSegments s owner last := fun owner last h => htwo ⟨owner, last, h⟩
  by_cases hempty : s = []
  · refine .inl ⟨hempty, ?_⟩
    rw [check, if_pos (by rw [List.isEmpty_iff]; exact hempty)]
  have hnonempty : ¬ (Text.trim url.toList).isEmpty = true := by rwa [List.isEmpty_iff]
  by_cases hscheme : scheme.toList <+: s
  · have hpre : ¬ (!scheme.toList.isPrefixOf (Text.trim url.toList)) = true := by
      rw [List.isPrefixOf_iff_prefix.mpr hscheme]
      decide
    cases hsite : afterSite? s with
    | none =>
      refine .inr (.inr (.inl ⟨hscheme, ?_, ?_⟩))
      · rintro ⟨rest, hrest⟩
        rw [afterSite?_eq_some_iff.mpr hrest.symm] at hsite
        cases hsite
      · have hsite' : afterSite? (Text.trim url.toList) = none := hsite
        simp only [check, if_neg hnonempty, if_neg hpre, hsite']
    | some rest =>
      have hs := afterSite?_eq_some_iff.mp hsite
      refine .inr (.inr (.inr (.inl ⟨hs ▸ List.prefix_append _ _, hnone, ?_⟩)))
      have hsegments : segments? rest = none := by
        rw [Option.eq_none_iff_forall_ne_some]
        rintro ⟨owner, name⟩ h
        obtain ⟨last, htwo, -⟩ := exists_twoSegments_iff.mpr
          (Option.bind_eq_some_iff.mpr ⟨rest, hsite, h⟩)
        exact hnone owner last htwo
      have hsite' : afterSite? (Text.trim url.toList) = some rest := hsite
      simp only [check, if_neg hnonempty, if_neg hpre, hsite', hsegments]
  · refine .inr (.inl ⟨hempty, hscheme, ?_⟩)
    rw [check, if_neg hnonempty, if_pos]
    rw [Bool.not_eq_true', ← Bool.not_eq_true, List.isPrefixOf_iff_prefix]
    exact hscheme

/-- A text that is the site and more begins with the scheme. -/
theorem scheme_prefix_of_site_prefix (h : site.toList <+: s) : scheme.toList <+: s := by
  obtain ⟨rest, rfl⟩ := h
  exact scheme_prefix_site rest

theorem TwoSegments.site_prefix (h : TwoSegments s owner last) : site.toList <+: s := by
  obtain ⟨-, -, rest, rfl, -⟩ := h
  exact List.prefix_append _ _

theorem not_scheme_prefix_nil : ¬ scheme.toList <+: [] := by decide

/-- When each reason applies that is not about a single segment. -/
theorem reasons_iff (url : String) :
    let s := Text.trim url.toList
    (check url = .error .empty ↔ s = []) ∧
      (check url = .error .protocol ↔ s ≠ [] ∧ ¬ scheme.toList <+: s) ∧
      (check url = .error .site ↔ scheme.toList <+: s ∧ ¬ site.toList <+: s) ∧
      (check url = .error .form ↔
        site.toList <+: s ∧ ∀ owner last, ¬ TwoSegments s owner last) := by
  intro s
  rcases check_cases url with ⟨hs, heq⟩ | ⟨hs, hscheme, heq⟩ | ⟨hscheme, hsite, heq⟩ |
    ⟨hsite, hnone, heq⟩ | ⟨owner, last, h, heq⟩
  · have hscheme : ¬ scheme.toList <+: s := fun h => not_scheme_prefix_nil (hs ▸ h)
    have hsite : ¬ site.toList <+: s := mt scheme_prefix_of_site_prefix hscheme
    refine ⟨iff_of_true heq hs, iff_of_false (by simp [heq]) fun h => h.1 hs, ?_⟩
    simp [heq, hscheme, hsite]
  · have hsite : ¬ site.toList <+: s := mt scheme_prefix_of_site_prefix hscheme
    simp [heq, show ¬ s = [] from hs, show ¬ scheme.toList <+: s from hscheme, hsite]
  · have hs : ¬ s = [] := fun hnil => not_scheme_prefix_nil (hnil ▸ hscheme)
    simp [heq, hs, show scheme.toList <+: s from hscheme, show ¬ site.toList <+: s from hsite]
  · have hscheme : scheme.toList <+: s := scheme_prefix_of_site_prefix hsite
    have hs : ¬ s = [] := fun hnil => not_scheme_prefix_nil (hnil ▸ hscheme)
    simp [heq, hs, hscheme, show site.toList <+: s from hsite,
      show ∀ owner last, ¬ TwoSegments s owner last from hnone]
  · have hsite : site.toList <+: s := h.site_prefix
    have hscheme : scheme.toList <+: s := scheme_prefix_of_site_prefix hsite
    have hs : ¬ s = [] := fun hnil => not_scheme_prefix_nil (hnil ▸ hscheme)
    obtain ⟨hempty, hprotocol, hsite', hform⟩ := verdict_ne owner (stem last)
    have hsome : ¬ ∀ owner last, ¬ TwoSegments s owner last := fun hall => hall owner last h
    simp [heq, hs, hscheme, hsite, hempty, hprotocol, hsite', hform, hsome]

/-! ### The main statement -/

/-- **The check of an address, said by splitting.** Let `s` be the address without surrounding blanks.
It is refused as empty exactly when `s` is; for its protocol exactly when `s` is something that does not
start with the scheme; for its site exactly when `s` starts with the scheme and not with the site; and for
its form exactly when `s` starts with the site, and what follows, less one slash at its end, is not two
segments. Of two segments the owner check decides on the first one, and then the name check on the stem
of the second one. The expression for the structure finds these same two texts by backtracking, and
nothing where there are no two segments. -/
theorem check_by_splitting (url : String) :
    ((check url = .error .empty ↔ Text.trim url.toList = []) ∧
        (check url = .error .protocol ↔
          Text.trim url.toList ≠ [] ∧ ¬ "https://".toList <+: Text.trim url.toList) ∧
        (check url = .error .site ↔
          "https://".toList <+: Text.trim url.toList ∧
            ¬ "https://github.com/".toList <+: Text.trim url.toList) ∧
        (check url = .error .form ↔
          "https://github.com/".toList <+: Text.trim url.toList ∧
            ∀ owner last, ¬ TwoSegments (Text.trim url.toList) owner last)) ∧
      (∀ owner last, TwoSegments (Text.trim url.toList) owner last →
        check url =
          if acceptsOwner owner = false then .error (.owner (String.ofList owner))
          else if acceptsName (stem last) = false then .error (.name (String.ofList (stem last)))
          else .ok (String.ofList owner, String.ofList (stem last))) ∧
      ∀ owner name, (structureMatches (Text.trim url.toList)).head? = some (owner, name) ↔
        ∃ last, TwoSegments (Text.trim url.toList) owner last ∧ name = stem last := by
  refine ⟨reasons_iff url, fun owner last h => check_eq_verdict h, fun owner name => ?_⟩
  rw [head?_structureMatches (getLast?_trim_ne_newline url.toList)]
  exact exists_twoSegments_iff.symm

/-- A name with a second `.git`: one of them is taken off, and the other one is refused. -/
theorem check_by_splitting_twice :
    let url := " https://github.com/octo/a.git.git/ "
    TwoSegments (Text.trim url.toList) "octo".toList "a.git.git".toList ∧
      check url = .error (.name "a.git") := by
  intro url
  have htwo : TwoSegments (Text.trim url.toList) "octo".toList "a.git.git".toList := by
    refine ⟨⟨by decide, by decide⟩, ⟨by decide, by decide⟩, "octo/a.git.git/".toList, ?_, ?_⟩
    · decide +kernel
    · decide
  exact ⟨htwo, ((check_by_splitting url).2.1 _ _ htwo).trans (by decide +kernel)⟩

/-- A name that is nothing but the ending keeps it, and two slashes at the end are one too many. -/
example : check "https://github.com/octo/.git" = .error (.name ".git") ∧
    check "https://github.com/octo/repo//" = .error .form := by decide +kernel

end RepoAudit.Address
