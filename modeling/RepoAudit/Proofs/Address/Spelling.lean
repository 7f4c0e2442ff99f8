import RepoAudit.Proofs.Address.Agreement
import RepoAudit.Proofs.Text.Trimming

/-!
# The addresses of a repository

Reading an address is decided by one unambiguous spelling: the site, the owner, a slash and the name,
then an optional `.git` and an optional slash. The shortest name that leaves an ending is the only
one, because a name does not end in `.git` itself.

* `IsHyphenated`, `Repository.IsNameable` — owners and names, said without the tests of the check;
* `Names` — an address spells a repository;
* `acceptsOwner_iff`, `acceptsName_iff` — among owners and names, the check takes the nameable ones;
* `grammatical_iff_spelled` — the full grammar matches a nameable repository by its spellings;
* `parse_eq_ok_iff_names` — **an address reads as a repository exactly when it spells it, and it spells
  one at most; the address built for a repository reads as that repository**.
-/

namespace RepoAudit

namespace Address

/-- Non-empty runs of letters and digits, joined by single hyphens. -/
def IsHyphenated (cs : List Char) : Prop :=
  ∃ runs : List (List Char), runs ≠ [] ∧ (∀ run ∈ runs, run ≠ [] ∧ ∀ c ∈ run, c.isAlphanum) ∧
    cs = ['-'].intercalate runs

end Address

/-- An owner and a name that a repository can have. -/
structure Repository.IsNameable (r : Repository) : Prop where
  owner_length : r.owner.length ≤ 39
  owner_form : Address.IsHyphenated r.owner.toList
  name_ne_empty : r.name ≠ ""
  name_form : ∀ c ∈ r.name.toList, c.isAlphanum ∨ c = '.' ∨ c = '_' ∨ c = '-'
  name_ne_itself : r.name ≠ "."
  name_ne_parent : r.name ≠ ".."
  name_ending : ¬ ".git".toList <:+ r.name.toList

namespace Address

variable {cs owner name : List Char}

/-- An address, stripped of surrounding blanks, spells a repository: `.git` and a slash may follow. -/
def Names (url : String) (r : Repository) : Prop :=
  r.IsNameable ∧ ∃ suffix ∈ ["", ".git"], ∃ slash ∈ ["", "/"],
    Text.strip url = "https://github.com/" ++ r.owner ++ "/" ++ r.name ++ suffix ++ slash

/-! ### Owners and names -/

/-- Splitting at hyphens decides the form of an owner. -/
theorem isOwner_iff_isHyphenated : isOwner cs = true ↔ IsHyphenated cs := by
  rw [isOwner, List.all_eq_true]
  constructor
  · intro h
    refine ⟨Text.splitOn '-' cs, Text.splitOn_ne_nil '-' cs, fun run hrun => ?_, ?_⟩
    · have hform := h run hrun
      rw [Bool.and_eq_true, Bool.not_eq_true', List.isEmpty_eq_false_iff, List.all_eq_true] at hform
      exact hform
    · rw [← Text.joinWith_eq, Text.joinWith_splitOn]
  · rintro ⟨runs, hne, hruns, rfl⟩ run hrun
    have hhyphen : ∀ run ∈ runs, '-' ∉ run := by
      intro run hrun hmem
      exact absurd ((hruns run hrun).2 '-' hmem) (by decide)
    rw [← Text.joinWith_eq, Text.splitOn_joinWith hne hhyphen] at hrun
    rw [Bool.and_eq_true, Bool.not_eq_true', List.isEmpty_eq_false_iff, List.all_eq_true]
    exact hruns run hrun

theorem isNameChar_iff {c : Char} :
    isNameChar c = true ↔ c.isAlphanum ∨ c = '.' ∨ c = '_' ∨ c = '-' := by
  simp [isNameChar, or_assoc]

theorem isName_iff_forall :
    isName cs = true ↔ cs ≠ [] ∧ ∀ c ∈ cs, c.isAlphanum ∨ c = '.' ∨ c = '_' ∨ c = '-' := by
  rw [isName, Bool.and_eq_true, Bool.not_eq_true', List.isEmpty_eq_false_iff, List.all_eq_true]
  simp only [isNameChar_iff]

/-- The check takes an owner that is not too long. -/
theorem acceptsOwner_iff (h : isOwner cs) : acceptsOwner cs = true ↔ cs.length ≤ 39 := by
  rw [acceptsOwner, holdsUpToNewline, h, Bool.true_or, Bool.and_true, decide_eq_true_iff]
  exact Iff.rfl

/-- The check takes a name that is neither reserved nor ends like an address. -/
theorem acceptsName_iff (h : isName cs) :
    acceptsName cs = true ↔ cs ≠ ['.'] ∧ cs ≠ ['.', '.'] ∧ ¬ ".git".toList <:+ cs := by
  simp only [acceptsName, holdsUpToNewline, h, Bool.true_or, Bool.true_and, Bool.and_eq_true,
    bne_iff_ne, Bool.not_eq_true', ← Bool.not_eq_true, List.isSuffixOf_iff_suffix, and_assoc]

/-- A repository is nameable when its owner and its name have their forms and are accepted. -/
theorem isNameable_iff {r : Repository} :
    r.IsNameable ↔ (isOwner r.owner.toList ∧ isName r.name.toList) ∧
      acceptsOwner r.owner.toList ∧ acceptsName r.name.toList := by
  have hname : ∀ s : String, r.name ≠ s ↔ r.name.toList ≠ s.toList := fun s =>
    not_congr String.toList_inj.symm
  constructor
  · rintro ⟨hlength, howner, hne, hform, hitself, hparent, hending⟩
    have howner := isOwner_iff_isHyphenated.mpr howner
    have hform := isName_iff_forall.mpr ⟨(hname "").mp hne, hform⟩
    exact ⟨⟨howner, hform⟩, (acceptsOwner_iff howner).mpr (by rwa [String.length_toList]),
      (acceptsName_iff hform).mpr ⟨(hname ".").mp hitself, (hname "..").mp hparent, hending⟩⟩
  · rintro ⟨⟨howner, hform⟩, hlength, haccepted⟩
    obtain ⟨hitself, hparent, hending⟩ := (acceptsName_iff hform).mp haccepted
    obtain ⟨hne, hchars⟩ := isName_iff_forall.mp hform
    refine ⟨?_, isOwner_iff_isHyphenated.mp howner, (hname "").mpr hne, hchars,
      (hname ".").mpr hitself, (hname "..").mpr hparent, hending⟩
    rw [← String.length_toList]
    exact (acceptsOwner_iff howner).mp hlength

/-! ### Endings -/

/-- An ending is an optional `.git` and an optional slash. -/
theorem isEnding_iff : isEnding cs = true ↔
    ∃ suffix ∈ ["", ".git"], ∃ slash ∈ ["", "/"], cs = suffix.toList ++ slash.toList := by
  simp only [isEnding, Bool.or_eq_true, List.isEmpty_iff, beq_iff_eq, List.mem_cons,
    List.not_mem_nil, or_false, exists_eq_or_imp, exists_eq_left, or_assoc]
  exact Iff.rfl

/-- What a longer ending has before a shorter one is a slash or a whole `.git`. -/
theorem beginning_of_ending {piece ending rest : List Char} (hend : isEnding ending = true)
    (hrest : isEnding rest = true) (hsplit : rest = piece ++ ending) :
    piece = [] ∨ '/' ∈ piece ∨ piece = ".git".toList := by
  have hmem : ∀ cs, isEnding cs = true → cs ∈ ["", "/", ".git", ".git/"].map String.toList := by
    intro cs h
    simp only [isEnding, Bool.or_eq_true, List.isEmpty_iff, beq_iff_eq] at h
    rcases h with ((rfl | rfl) | rfl) | rfl <;> decide
  have hpiece : piece ∈ rest.inits := (List.mem_inits _ _).mpr ⟨ending, hsplit.symm⟩
  have hall : ∀ rest ∈ ["", "/", ".git", ".git/"].map String.toList, ∀ piece ∈ rest.inits,
      ∀ ending ∈ ["", "/", ".git", ".git/"].map String.toList, rest = piece ++ ending →
        piece = [] ∨ '/' ∈ piece ∨ piece = ".git".toList := by decide
  exact hall rest (hmem rest hrest) piece hpiece ending (hmem ending hend) hsplit

/-- No shorter text leaves an ending of a name with an ending after it, unless the name ends like an
address itself. -/
theorem length_le_of_ending {ending shorter rest : List Char} (hname : '/' ∉ name)
    (hgit : ¬ ".git".toList <:+ name) (hend : isEnding ending = true)
    (hrest : isEnding rest = true) (hsplit : shorter ++ rest = name ++ ending) :
    name.length ≤ shorter.length := by
  by_contra hlt
  obtain ⟨piece, rfl⟩ : shorter <+: name :=
    List.prefix_of_prefix_length_le (hsplit ▸ List.prefix_append _ _) (List.prefix_append _ _)
      (by omega)
  rw [List.append_assoc, List.append_cancel_left_eq] at hsplit
  rcases beginning_of_ending hend hrest hsplit with rfl | hslash | rfl
  · simp at hlt
  · exact hname (List.mem_append_right _ hslash)
  · exact hgit (List.suffix_append shorter _)

/-- The full grammar matches the spellings of a name that does not end like an address itself. -/
theorem grammatical_iff_spelled (hcs : cs.getLast? ≠ some '\n') (hgit : ¬ ".git".toList <:+ name) :
    Grammatical cs owner name ↔ (isOwner owner ∧ isName name) ∧
      ∃ ending, isEnding ending = true ∧ cs = site.toList ++ (owner ++ '/' :: (name ++ ending)) := by
  -- every end of the text is an ending
  have hend : ∀ ending, cs = site.toList ++ (owner ++ '/' :: (name ++ ending)) →
      ∀ shorter rest, shorter ++ rest = name ++ ending → (IsEnd rest ↔ isEnding rest = true) := by
    intro ending htext shorter rest hsplit
    refine isEnd_iff (site.toList ++ (owner ++ '/' :: shorter)) hcs ?_
    rw [htext, ← hsplit]
    simp
  constructor
  · rintro ⟨ending, htext, howner, hname, hending, -⟩
    exact ⟨⟨howner, hname⟩, ending, (hend ending htext name ending rfl).mp hending, htext⟩
  · rintro ⟨⟨howner, hname⟩, ending, hending, htext⟩
    refine ⟨ending, htext, howner, hname, (hend ending htext name ending rfl).mpr hending,
      fun shorter rest hsplit _ hrest => ?_⟩
    exact length_le_of_ending (isSegment_of_isName hname).2 hgit hending
      ((hend ending htext shorter rest hsplit).mp hrest) hsplit

/-! ### Reading -/

/-- Reading finds what the full grammar matches, when the check takes it. -/
theorem parse_eq_ok_iff {url : String} {r : Repository} :
    parse url = .ok r ↔ Grammatical (Text.trim url.toList) r.owner.toList r.name.toList ∧
      acceptsOwner r.owner.toList ∧ acceptsName r.name.toList := by
  have hlast := getLast?_trim_ne_newline url.toList
  have hlocator : Grammatical (Text.trim url.toList) r.owner.toList r.name.toList ↔
      locator? (Text.trim url.toList) = some r := by
    rw [grammatical_iff hlast, String.ofList_toList, String.ofList_toList]
  constructor
  · intro h
    cases hcheck : check url with
    | error e =>
      simp only [parse, hcheck] at h
      cases h
    | ok segments =>
      obtain ⟨owner, name⟩ := segments
      rw [parse_of_check hcheck] at h
      cases hfound : locator? (Text.trim url.toList) with
      | none =>
        rw [hfound] at h
        cases h
      | some found =>
        rw [hfound, Option.elim_some, Except.ok.injEq] at h
        subst h
        have hgrammatical := hlocator.mpr hfound
        refine ⟨hgrammatical, ?_⟩
        -- the structure of a text is unique, so the check saw the same segments
        obtain ⟨hstructured, haccepted⟩ := check_eq_ok_iff.mp hcheck
        obtain ⟨rest, hrest, hsegments⟩ := (structured_iff hlast).mp hstructured
        obtain ⟨rest', hrest', hsegments'⟩ :=
          (structured_iff hlast).mp (grammatical_iff_structured.mp hgrammatical).1
        rw [hrest, Option.some.injEq] at hrest'
        rw [← hrest', hsegments, Option.some.injEq, Prod.mk.injEq] at hsegments'
        rwa [hsegments'.1, hsegments'.2] at haccepted
  · rintro ⟨hgrammatical, haccepted⟩
    have hcheck : check url = .ok (r.owner, r.name) :=
      check_eq_ok_iff.mpr ⟨(grammatical_iff_structured.mp hgrammatical).1, haccepted⟩
    rw [parse_of_check hcheck, hlocator.mp hgrammatical, Option.elim_some]

/-- The spelling of a repository, character by character. -/
theorem strip_eq_iff {url : String} {r : Repository} {suffix slash : String} :
    Text.strip url = "https://github.com/" ++ r.owner ++ "/" ++ r.name ++ suffix ++ slash ↔
      Text.trim url.toList = site.toList ++ (r.owner.toList ++ '/' :: (r.name.toList ++
        (suffix.toList ++ slash.toList))) := by
  rw [← String.toList_inj, Text.toList_strip]
  simp only [String.toList_append, List.append_assoc]
  exact Iff.rfl

theorem parse_eq_ok_iff_spelled {url : String} {r : Repository} :
    parse url = .ok r ↔ Names url r := by
  have hlast := getLast?_trim_ne_newline url.toList
  have hspelled : (∃ ending, isEnding ending = true ∧ Text.trim url.toList =
      site.toList ++ (r.owner.toList ++ '/' :: (r.name.toList ++ ending))) ↔
      ∃ suffix ∈ ["", ".git"], ∃ slash ∈ ["", "/"],
        Text.strip url = "https://github.com/" ++ r.owner ++ "/" ++ r.name ++ suffix ++ slash := by
    simp only [isEnding_iff, strip_eq_iff]
    constructor
    · rintro ⟨_, ⟨suffix, hsuffix, slash, hslash, rfl⟩, htext⟩
      exact ⟨suffix, hsuffix, slash, hslash, htext⟩
    · rintro ⟨suffix, hsuffix, slash, hslash, htext⟩
      exact ⟨_, ⟨suffix, hsuffix, slash, hslash, rfl⟩, htext⟩
  rw [parse_eq_ok_iff, Names, isNameable_iff, ← hspelled]
  constructor
  · rintro ⟨hgrammatical, howner, hname⟩
    have hforms := (grammatical_iff_structured.mp hgrammatical).2
    have hgit := ((acceptsName_iff hforms.2).mp hname).2.2
    exact ⟨⟨hforms, howner, hname⟩, ((grammatical_iff_spelled hlast hgit).mp hgrammatical).2⟩
  · rintro ⟨⟨hforms, howner, hname⟩, hspelling⟩
    have hgit := ((acceptsName_iff hforms.2).mp hname).2.2
    exact ⟨(grammatical_iff_spelled hlast hgit).mpr ⟨hforms, hspelling⟩, howner, hname⟩

theorem isAlphanum_iff (c : Char) :
    c.isAlphanum = true ↔ ((65 ≤ c.toNat ∧ c.toNat ≤ 90) ∨ (97 ≤ c.toNat ∧ c.toNat ≤ 122)) ∨
      (48 ≤ c.toNat ∧ c.toNat ≤ 57) := by
  change ((decide (65 ≤ c.val ∧ c.val ≤ 90) || (decide (97 ≤ c.val) && decide (c.val ≤ 122))) ||
    (decide (48 ≤ c.val) && decide (c.val ≤ 57))) = true ↔ _
  simp only [Bool.or_eq_true, Bool.and_eq_true, decide_eq_true_eq, UInt32.le_iff_toNat_le]
  rfl

/-- No character of a name is a blank. -/
theorem isBlank_of_isNameChar {c : Char} (h : isNameChar c = true) : Text.isBlank c = false := by
  rw [isNameChar_iff, isAlphanum_iff] at h
  rcases h with h | rfl | rfl | rfl
  · simp only [Text.isBlank, Bool.or_eq_false_iff, Bool.and_eq_false_iff, decide_eq_false_iff_not,
      beq_eq_false_iff_ne]
    omega
  · decide
  · decide
  · decide

/-- The address of a repository has nothing to strip. -/
theorem strip_address {r : Repository} (h : r.IsNameable) : Text.strip r.address = r.address := by
  have hname := (isNameable_iff.mp h).1.2
  have htext : r.address.toList = (site.toList ++ (r.owner.toList ++ ['/'])) ++ r.name.toList := by
    simp only [Repository.address, String.toList_append, List.append_assoc]
    rfl
  have htrim : Text.trim r.address.toList = r.address.toList := by
    refine Text.trim_eq_self ⟨fun c hc => ?_, fun c hc => ?_⟩
    · rw [htext] at hc
      obtain rfl : 'h' = c := Option.some.inj hc
      decide
    · rw [htext, List.getLast?_append_of_ne_nil _ (ne_nil_of_isName hname)] at hc
      rw [isName, Bool.and_eq_true, List.all_eq_true] at hname
      exact isBlank_of_isNameChar (hname.2 c (List.mem_of_getLast? hc))
  rw [Text.strip, htrim, String.ofList_toList]

/-- **Reading an address is decided by its spelling.** It gives an owner and a name exactly when the
address, stripped of blanks, is the site, a nameable owner, a slash and a nameable name, with `.git`
and a slash after it or not; an address spells one repository at most; and the address built for a
repository that can be named reads as that repository. -/
theorem parse_eq_ok_iff_names (url : String) :
    (∀ owner name, parse url = .ok ⟨owner, name⟩ ↔ Names url ⟨owner, name⟩) ∧
      (∀ r r', Names url r → Names url r' → r = r') ∧
      ∀ r : Repository, r.IsNameable → parse r.address = .ok r := by
  refine ⟨fun owner name => parse_eq_ok_iff_spelled, fun r r' hr hr' => ?_, fun r hr => ?_⟩
  · have hread := parse_eq_ok_iff_spelled.mpr hr
    rw [parse_eq_ok_iff_spelled.mpr hr', Except.ok.injEq] at hread
    exact hread.symm
  · refine parse_eq_ok_iff_spelled.mpr ⟨hr, "", by simp, "", by simp, ?_⟩
    rw [strip_address hr, String.append_empty, String.append_empty]
    rfl

/-- Names made of dots and inner endings. -/
example : (parse "https://github.com/z/.../").toOption = some ⟨"z", "..."⟩ ∧
    (parse "https://github.com/z/a.git.git").toOption = none ∧
    (parse "https://github.com/z/..git").toOption = none := by decide +kernel

end Address

end RepoAudit
