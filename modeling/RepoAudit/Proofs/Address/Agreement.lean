import RepoAudit.Proofs.Address.Grammar

/-!
# Accepted addresses and the full grammar

The check looks at the structure and then at each segment by itself, where one line feed at the end
of a segment is passed over. The full grammar has no place for a line feed.

* `check_eq_ok_iff` — what the check accepts, and the segments it finds;
* `isOwner_iff`, `isName_iff` — an accepted segment has its form exactly when no line feed is in it;
* `accepted_reads_unless_newline` — **an accepted address matches the full grammar, and reading it gives the
  segments of the check, exactly when no line feed stands between its ends**;
* `accepted_unreadable` — an accepted address that cannot be read.
-/

namespace RepoAudit.Address

/-! ### Line feeds -/

theorem getLast?_trim_ne_newline (cs : List Char) : (Text.trim cs).getLast? ≠ some '\n' := by
  intro hlast
  rw [Text.trim, Text.trimEnd, List.getLast?_reverse] at hlast
  have hblank := List.head?_dropWhile_not Text.isBlank (Text.trimStart cs).reverse
  rw [hlast] at hblank
  exact absurd hblank (by decide)

theorem newline_not_mem_site : '\n' ∉ site.toList := by decide

/-- A form that no line feed fits holds up to a line feed at the end: it holds exactly when there is
none. -/
theorem iff_not_mem_of_upToNewline {form : List Char → Bool} {cs : List Char}
    (hform : ∀ ds, form ds → '\n' ∉ ds) (h : holdsUpToNewline form cs) :
    form cs = true ↔ '\n' ∉ cs := by
  refine ⟨hform cs, fun hnone => ?_⟩
  rw [holdsUpToNewline, Bool.or_eq_true, Bool.and_eq_true, beq_iff_eq] at h
  rcases h with h | ⟨hlast, -⟩
  · exact h
  · exact absurd (List.mem_of_getLast? hlast) hnone

theorem isOwner_iff {cs : List Char} (h : acceptsOwner cs) : isOwner cs = true ↔ '\n' ∉ cs := by
  rw [acceptsOwner, Bool.and_eq_true] at h
  exact iff_not_mem_of_upToNewline (fun _ hds => not_mem_of_isOwner hds (by decide) (by decide)) h.2

theorem isName_iff {cs : List Char} (h : acceptsName cs) : isName cs = true ↔ '\n' ∉ cs := by
  simp only [acceptsName, Bool.and_eq_true] at h
  exact iff_not_mem_of_upToNewline (fun _ hds => not_mem_of_isName hds (by decide)) h.1.1.1

/-- No ending has a line feed, unless it stands at the end of the text. -/
theorem newline_not_mem_ending {ending : List Char} (h : isEnding ending = true) :
    '\n' ∉ ending := by
  simp only [isEnding, Bool.or_eq_true, List.isEmpty_iff, beq_iff_eq] at h
  rcases h with ((rfl | rfl) | rfl) | rfl <;> decide

/-- The line feeds of a text are those of its segments. -/
theorem newline_mem_iff {cs owner name : List Char} (hcs : cs.getLast? ≠ some '\n')
    (h : Structured cs owner name) : '\n' ∈ cs ↔ '\n' ∈ owner ∨ '\n' ∈ name := by
  obtain ⟨ending, htext, -, -, hend, -⟩ := h
  have hending : isEnding ending = true := by
    refine (isEnd_iff (site.toList ++ (owner ++ '/' :: name)) hcs ?_).mp hend
    rw [htext]
    simp
  rw [htext, List.mem_append, List.mem_append, List.mem_cons, List.mem_append]
  simp [newline_not_mem_site, newline_not_mem_ending hending]

/-! ### Checking and reading -/

theorem scheme_prefix_site (rest : List Char) : scheme.toList <+: site.toList ++ rest :=
  (show scheme.toList <+: site.toList by decide).trans (List.prefix_append _ _)

/-- The check finds the segments of the structure and accepts them. -/
theorem check_eq_ok_iff {url owner name : String} :
    check url = .ok (owner, name) ↔
      Structured (Text.trim url.toList) owner.toList name.toList ∧
        acceptsOwner owner.toList ∧ acceptsName name.toList := by
  rw [structured_iff (getLast?_trim_ne_newline _), check]
  constructor
  · intro h
    split at h
    · cases h
    split at h
    · cases h
    split at h
    · cases h
    next rest hrest =>
    split at h
    · cases h
    next o n hsegments =>
    split at h
    · cases h
    next howner =>
    split at h
    · cases h
    next hname =>
    rw [Except.ok.injEq, Prod.mk.injEq] at h
    obtain ⟨rfl, rfl⟩ := h
    rw [String.toList_ofList, String.toList_ofList]
    exact ⟨⟨rest, hrest, hsegments⟩, by simpa using howner, by simpa using hname⟩
  · rintro ⟨⟨rest, hrest, hsegments⟩, howner, hname⟩
    have htext := afterSite?_eq_some_iff.mp hrest
    have hscheme : scheme.toList.isPrefixOf (Text.trim url.toList) = true := by
      rw [htext, List.isPrefixOf_iff_prefix]
      exact scheme_prefix_site rest
    have hempty : (Text.trim url.toList).isEmpty = false := by
      rw [htext]
      rfl
    simp [hempty, hscheme, hrest, hsegments, howner, hname]

/-- An accepted address is read by the full grammar. -/
theorem parse_of_check {url : String} {segments : String × String} (h : check url = .ok segments) :
    parse url = (locator? (Text.trim url.toList)).elim (.error .unreadable) .ok := by
  simp only [parse, h]
  cases locator? (Text.trim url.toList) <;> rfl

/-- **Accepting and reading agree up to line feeds.** The check accepts an address and finds its two
segments. When no line feed stands between the ends of the address, the full grammar matches with
the same segments, and reading gives them; when one does, the full grammar does not match at all, and
reading fails. -/
theorem accepted_reads_unless_newline {url owner name : String} (h : check url = .ok (owner, name)) :
    ('\n' ∉ Text.trim url.toList →
      Grammatical (Text.trim url.toList) owner.toList name.toList ∧
        parse url = .ok ⟨owner, name⟩) ∧
      ('\n' ∈ Text.trim url.toList →
        (∀ o n, ¬ Grammatical (Text.trim url.toList) o n) ∧ parse url = .error .unreadable) := by
  have hlast := getLast?_trim_ne_newline url.toList
  obtain ⟨hstructured, howner, hname⟩ := check_eq_ok_iff.mp h
  have hforms : (isOwner owner.toList ∧ isName name.toList) ↔ '\n' ∉ Text.trim url.toList := by
    rw [isOwner_iff howner, isName_iff hname, newline_mem_iff hlast hstructured, not_or]
  constructor
  · intro hnone
    have hgrammatical := grammatical_iff_structured.mpr ⟨hstructured, hforms.mpr hnone⟩
    have hlocator := (grammatical_iff hlast).mp hgrammatical
    rw [String.ofList_toList, String.ofList_toList] at hlocator
    exact ⟨hgrammatical, by rw [parse_of_check h, hlocator, Option.elim_some]⟩
  · intro hsome
    have hnever : ∀ o n, ¬ Grammatical (Text.trim url.toList) o n := by
      intro o n hgrammatical
      obtain ⟨hstructured', howner', hname'⟩ := grammatical_iff_structured.mp hgrammatical
      -- the structure of a text is unique, so these would be the segments of the check
      obtain ⟨rest, hrest, hsegments⟩ := (structured_iff hlast).mp hstructured
      obtain ⟨rest', hrest', hsegments'⟩ := (structured_iff hlast).mp hstructured'
      rw [hrest, Option.some.injEq] at hrest'
      rw [← hrest', hsegments, Option.some.injEq, Prod.mk.injEq] at hsegments'
      obtain ⟨rfl, rfl⟩ := hsegments'
      exact hforms.mp ⟨howner', hname'⟩ hsome
    refine ⟨hnever, ?_⟩
    rw [parse_of_check h]
    cases hlocator : locator? (Text.trim url.toList) with
    | none => rfl
    | some r =>
      refine absurd ((grammatical_iff hlast).mpr ?_) (hnever r.owner.toList r.name.toList)
      rw [hlocator, String.ofList_toList, String.ofList_toList]

/-- A name with a second ending in its middle is found whole and read as it was checked. -/
theorem accepted_reads_unless_newline_inner_ending :
    check " https://github.com/octo/a.git.b.git/ " = .ok ("octo", "a.git.b") ∧
      parse " https://github.com/octo/a.git.b.git/ " = .ok ⟨"octo", "a.git.b"⟩ := by
  have hcheck : check " https://github.com/octo/a.git.b.git/ " = .ok ("octo", "a.git.b") := by
    decide +kernel
  exact ⟨hcheck, ((accepted_reads_unless_newline hcheck).1 (by decide +kernel)).2⟩

/-- An owner with a line feed at its end passes the check, but the address cannot be read. -/
theorem accepted_unreadable :
    check "https://github.com/octo\n/repo" = .ok ("octo\n", "repo") ∧
      parse "https://github.com/octo\n/repo" = .error .unreadable ∧
      ¬ ∀ url, isAccepted url → ∃ r, parse url = .ok r := by
  have hcheck : check "https://github.com/octo\n/repo" = .ok ("octo\n", "repo") := by
    decide +kernel
  have hparse : parse "https://github.com/octo\n/repo" = .error .unreadable := by
    decide +kernel
  refine ⟨hcheck, hparse, fun hall => ?_⟩
  obtain ⟨r, hr⟩ := hall "https://github.com/octo\n/repo" (by rw [isAccepted, hcheck]; rfl)
  rw [hparse] at hr
  cases hr

end RepoAudit.Address
