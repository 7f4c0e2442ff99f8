import RepoAudit.Proofs.Address.Spelling

/-!
# The canonical address of a repository

The canonical form is found by looking at the end of a text only, and an address is read by a grammar.
They agree because a name holds no slash and does not end in `.git` itself: of a spelling, exactly the
optional slash and the optional `.git` are dropped.

* `dropEnding_append` — an optional ending is dropped, and nothing more;
* `canonical_eq_address` — the canonical form of any spelling is the address of the repository;
* `names_address` — that address is a spelling too;
* `canonical_of_parse` — **the canonical form of an address that reads as a repository is the address of
  that repository: it is its own canonical form, it is accepted and reads the same, and two addresses
  share it exactly when they read as one repository**.
-/

namespace RepoAudit.Address

variable {cs name : List Char} {url : String} {r : Repository}

/-! ### Endings that are dropped -/

/-- An optional ending is dropped from a text that does not end like that itself. -/
theorem dropEnding_append {ending last : String} (h : ¬ ending.toList <:+ cs)
    (hlast : last ∈ ["", ending]) : dropEnding ending.toList (cs ++ last.toList) = cs := by
  rw [List.mem_pair] at hlast
  rcases hlast with rfl | rfl
  · rw [String.toList_empty, List.append_nil, dropEnding, if_neg (mt List.isSuffixOf_iff_suffix.mp h)]
  · rw [dropEnding, if_pos (List.isSuffixOf_iff_suffix.mpr (List.suffix_append _ _)),
      List.length_append, Nat.add_sub_cancel, List.take_left]

/-- A slash at the end of a text is its last character. -/
theorem not_slash_suffix (hne : name ≠ []) (hslash : '/' ∉ name) (cs : List Char) :
    ¬ ['/'] <:+ cs ++ name := by
  intro hsuffix
  have hlast := hsuffix.getLast (List.cons_ne_nil _ _)
  rw [List.getLast_singleton, List.getLast_append_of_ne_nil _ hne] at hlast
  exact hslash (hlast ▸ List.getLast_mem hne)

/-- Behind a slash, a text ends in `.git` only when what stands there does. -/
theorem not_git_suffix (hgit : ¬ ".git".toList <:+ name) (cs : List Char) :
    ¬ ".git".toList <:+ cs ++ '/' :: name := by
  intro hsuffix
  have hname : '/' :: name <:+ cs ++ '/' :: name := List.suffix_append _ _
  rcases List.suffix_or_suffix_of_suffix hsuffix hname with hshort | hlong
  · rcases List.suffix_cons_iff.mp hshort with heq | hshort
    · exact absurd (List.head_eq_of_cons_eq heq) (by decide)
    · exact hgit hshort
  · exact absurd (hlong.subset List.mem_cons_self) (by decide)

/-! ### The canonical form of a spelling -/

/-- The address of a repository, character by character. -/
theorem toList_address (r : Repository) :
    r.address.toList = (site.toList ++ r.owner.toList) ++ '/' :: r.name.toList := by
  simp only [Repository.address, String.toList_append, List.append_assoc]
  rfl

/-- From every spelling, the endings are dropped and nothing else. -/
theorem canonical_eq_address (h : Names url r) : canonical url = r.address := by
  obtain ⟨hnameable, suffix, hsuffix, slash, hslash, htext⟩ := h
  have hname := (isNameable_iff.mp hnameable).1.2
  have htrim : Text.trim url.toList = (r.address.toList ++ suffix.toList) ++ slash.toList := by
    rw [strip_eq_iff.mp htext, toList_address]
    simp only [List.append_assoc, List.cons_append]
  have hgit : ¬ ".git".toList <:+ r.address.toList := by
    rw [toList_address]
    exact not_git_suffix hnameable.name_ending _
  -- what stands before the slash does not end in one, with `.git` or without it
  have hbefore : ¬ "/".toList <:+ r.address.toList ++ suffix.toList := by
    rw [List.mem_pair] at hsuffix
    rcases hsuffix with rfl | rfl
    · rw [String.toList_empty, List.append_nil, toList_address, List.append_cons]
      exact not_slash_suffix (ne_nil_of_isName hname) (isSegment_of_isName hname).2 _
    · exact not_slash_suffix (by decide) (by decide) _
  have hdrop : dropEnding ['/'] (Text.trim url.toList) = r.address.toList ++ suffix.toList := by
    rw [htrim]
    exact dropEnding_append hbefore hslash
  rw [canonical, hdrop, dropEnding_append hgit hsuffix, String.ofList_toList]

/-- The address of a repository is its shortest spelling. -/
theorem names_address (h : r.IsNameable) : Names r.address r := by
  refine ⟨h, "", by simp, "", by simp, ?_⟩
  rw [strip_address h, String.append_empty, String.append_empty]
  rfl

/-! ### The main statement -/

/-- **The canonical form of an address is the address of the repository that it reads as.** So taking
the canonical form again changes nothing, the canonical form is accepted and reads as the same
repository, and two addresses that can be read have one canonical form exactly when they read as one
repository. -/
theorem canonical_of_parse {url : String} {r : Repository} (h : parse url = .ok r) :
    canonical url = r.address ∧ canonical (canonical url) = canonical url ∧
      isAccepted (canonical url) = true ∧ parse (canonical url) = .ok r ∧
      ∀ url' r', parse url' = .ok r' → (canonical url = canonical url' ↔ r = r') := by
  have hread : ∀ {url r}, parse url = .ok r →
      canonical url = r.address ∧ parse (canonical url) = .ok r := by
    intro url r h
    have hnames := parse_eq_ok_iff_spelled.mp h
    have hcanonical := canonical_eq_address hnames
    exact ⟨hcanonical, hcanonical ▸ parse_eq_ok_iff_spelled.mpr (names_address hnames.1)⟩
  obtain ⟨hcanonical, hparse⟩ := hread h
  have hcheck : check (canonical url) = .ok (r.owner, r.name) :=
    check_eq_ok_iff.mpr ⟨(grammatical_iff_structured.mp (parse_eq_ok_iff.mp hparse).1).1,
      (parse_eq_ok_iff.mp hparse).2⟩
  refine ⟨hcanonical, ?_, by rw [isAccepted, hcheck]; rfl, hparse, fun url' r' h' => ?_⟩
  · rw [(hread hparse).1, hcanonical]
  · obtain ⟨hcanonical', hparse'⟩ := hread h'
    constructor
    · intro heq
      rw [heq, hparse', Except.ok.injEq] at hparse
      exact hparse.symm
    · rintro rfl
      rw [hcanonical, hcanonical']

/-- A name with points and an inner ending, spelled in full and without its endings. -/
theorem canonical_of_parse_inner_ending :
    let url := " https://github.com/octo/a.git.b...git/ "
    let url' := "https://github.com/octo/a.git.b.."
    (parse url = .ok ⟨"octo", "a.git.b.."⟩ ∧ parse url' = .ok ⟨"octo", "a.git.b.."⟩) ∧
      canonical url = "https://github.com/octo/a.git.b.." ∧ canonical url = canonical url' := by
  intro url url'
  have hparse : parse url = .ok ⟨"octo", "a.git.b.."⟩ := by decide +kernel
  have hparse' : parse url' = .ok ⟨"octo", "a.git.b.."⟩ := by decide +kernel
  obtain ⟨hcanonical, -, -, -, hshared⟩ := canonical_of_parse hparse
  exact ⟨⟨hparse, hparse'⟩, hcanonical.trans (by decide), (hshared url' _ hparse').mpr rfl⟩

end RepoAudit.Address
