import RepoAudit.Proofs.Path

/-!
# Paths seen from a root

A report names files by absolute paths, and they are kept as seen from the root that was scanned. A
path is rewritten when its normal form continues that of the root behind a slash; a sibling whose
name only begins like that of the root is left alone.

* `normalParts_eq_foldl_nonEmptyParts` — empty parts have no say in a normal form;
* `normalize_of_isAbsolute`, `nonEmptyParts_normalize` — normal forms from the root;
* `leading_append` — the slashes at the start are settled before the first name;
* `SeenFrom` — a path as seen from a root; `SeenFrom.isName`, `SeenFrom.normalize_join` — its parts are
  names, and continuing the root by them leads back;
* `belowRoot_of_seenFrom`, `belowRoot_of_not_seenFrom` — when a path is rewritten, and to what;
* `belowRoot_keeps_file` — **a path is rewritten exactly when it lies below the root, and names the
  same file before and after**.
-/

namespace RepoAudit.Path

variable {p q root : String}

/-! ### Normal forms from the root -/

/-- Empty parts change nothing on the way. -/
theorem foldl_pushPart_filter (absolute : Bool) (ps done : List String) :
    (ps.filter (· ≠ "")).foldl (pushPart absolute) done = ps.foldl (pushPart absolute) done := by
  induction ps generalizing done with
  | nil => rfl
  | cons part rest ih =>
    by_cases hpart : part = ""
    · rw [List.filter_cons_of_neg (by simpa), ih, List.foldl_cons,
        pushPart_of_idle (.inl hpart)]
    · rw [List.filter_cons_of_pos (by simpa), List.foldl_cons, ih, List.foldl_cons]

/-- Empty parts have no say in a normal form. -/
theorem normalParts_eq_foldl_nonEmptyParts (p : String) :
    normalParts p = ((nonEmptyParts p).foldl (pushPart (isAbsolute p)) []).reverse := by
  rw [nonEmptyParts, foldl_pushPart_filter, normalParts]

/-- From the root there is nothing to go up to, so that a normal form has names only. -/
theorem isName_of_mem_normalParts {name : String} (h : isAbsolute p = true)
    (hname : name ∈ normalParts p) : IsName name := by
  obtain ⟨ups, names, heq, hnames, hups⟩ := normalParts_shape p
  rw [heq, hups h, List.replicate_zero, List.nil_append] at hname
  exact hnames name hname

theorem slash_not_mem_of_mem_normalParts {name : String} (h : name ∈ normalParts p) :
    '/' ∉ name.toList :=
  slash_not_mem_of_mem_parts (mem_parts_of_mem_normalParts h)

theorem normalize_of_isAbsolute (h : isAbsolute p = true) :
    normalize p = leading p ++ ofParts (normalParts p) := by
  have hne : leading p ++ ofParts (normalParts p) ≠ "" := by
    rcases leading_of_isAbsolute h with hlead | hlead <;> rw [hlead] <;> simp
  rw [normalize, if_neg hne]

/-- The slashes at the start of a normal form open no further names. -/
theorem nonEmptyParts_normalize (h : isAbsolute p = true) :
    nonEmptyParts (normalize p) = normalParts p := by
  by_cases hnil : normalParts p = []
  · rw [normalize_of_isAbsolute h, hnil]
    rcases leading_of_isAbsolute h with hlead | hlead <;> rw [hlead] <;> decide
  · obtain ⟨slashes, hslashes, hparts⟩ := parts_normalize hnil
    have hempty : slashes.filter (· ≠ "") = [] := by
      apply List.filter_eq_nil_iff.mpr
      intro s hs
      simp [hslashes s hs]
    have hfull : (normalParts p).filter (· ≠ "") = normalParts p := by
      apply List.filter_eq_self.mpr
      intro part hpart
      simpa using ne_empty_of_mem_normalParts hpart
    rw [nonEmptyParts, hparts, List.filter_append, hempty, hfull, List.nil_append]

/-- A normal form with names in it shows them behind its slashes, whatever follows. -/
theorem dropWhile_parts_normalize (hne : normalParts p ≠ []) (after : List String) :
    (parts (normalize p) ++ after).dropWhile (· = "") = normalParts p ++ after := by
  obtain ⟨slashes, hslashes, hparts⟩ := parts_normalize hne
  obtain ⟨name, rest, hnames⟩ := List.exists_cons_of_ne_nil hne
  have hname : name ≠ "" := ne_empty_of_mem_normalParts (p := p) (hnames ▸ List.mem_cons_self)
  have hskip : ∀ s ∈ slashes, decide (s = "") = true := fun s hs => by simpa using hslashes s hs
  rw [hparts, List.append_assoc, List.dropWhile_append_of_pos hskip, hnames, List.cons_append,
    List.dropWhile_cons_of_neg (by simpa using hname)]

/-- Names put together begin with no slash. -/
theorem isAbsolute_ofParts_normalParts (p : String) :
    isAbsolute (ofParts (normalParts p)) = false := by
  by_cases hnil : normalParts p = []
  · rw [hnil]
    rfl
  · rw [← Bool.not_eq_true, isAbsolute_iff]
    intro ⟨rest, hrest⟩
    have hback : parts (ofParts (normalParts p)) = normalParts p :=
      parts_ofParts hnil fun name => slash_not_mem_of_mem_normalParts
    rw [hrest, parts_slash_append] at hback
    exact ne_empty_of_mem_normalParts (p := p) (hback ▸ List.mem_cons_self) rfl

/-- The slashes at the start of a path are settled before its first name. -/
theorem leading_append (hname : ∃ c ∈ p.toList, c ≠ '/') (rest : String) :
    leading (p ++ rest) = leading p := by
  rw [leading, leading, String.toList_append]
  generalize p.toList = cs at hname
  rcases cs with _ | ⟨a, _ | ⟨b, _ | ⟨c, cs⟩⟩⟩
  · simp at hname
  · obtain ⟨c, hc, hne⟩ := hname
    obtain rfl := List.mem_singleton.mp hc
    simp [hne]
  · by_cases ha : a = '/'
    · by_cases hb : b = '/'
      · simp [ha, hb] at hname
      · simp [ha, hb]
    · simp [ha]
  · by_cases ha : a = '/'
    · by_cases hb : b = '/'
      · by_cases hc : c = '/'
        · simp [ha, hb, hc]
        · simp [ha, hb, hc]
      · simp [ha, hb]
    · simp [ha]

/-- The names of a path that continues a root by names are those of both. -/
theorem normalParts_join (hroot : isAbsolute root = true) (hq : isAbsolute q = false)
    (hnames : ∀ name ∈ parts q, IsName name) :
    normalParts (join root q) = normalParts root ++ parts q := by
  have hself : nonEmptyParts q = parts q := by
    apply List.filter_eq_self.mpr
    intro name hname
    simpa using (hnames name hname).1
  have hplain : (parts q).filter (fun part => part ≠ "" ∧ part ≠ ".") = parts q := by
    apply List.filter_eq_self.mpr
    intro name hname
    simpa using ⟨(hnames name hname).1, (hnames name hname).2.1⟩
  rw [normalParts_eq_foldl_nonEmptyParts, nonEmptyParts_join root hq, isAbsolute_join hroot,
    List.foldl_append, hself, foldl_pushPart hnames hplain, List.reverse_append,
    List.reverse_reverse, normalParts_eq_foldl_nonEmptyParts root, hroot]

/-! ### What is seen from a root -/

/-- What a path is, as seen from a root: what its normal form says behind that of the root and a
slash. -/
def SeenFrom (root p q : String) : Prop := q ≠ "" ∧ normalize p = normalize root ++ "/" ++ q

instance (root p q : String) : Decidable (SeenFrom root p q) :=
  inferInstanceAs (Decidable (q ≠ "" ∧ normalize p = normalize root ++ "/" ++ q))

section

variable (hroot : isAbsolute root = true) (hne : normalize root ≠ "/") (hp : isAbsolute p = true)

include hroot hne hp

/-- Below the root of all roots there is nothing to rewrite, so a root that something is seen from has
a name. -/
theorem SeenFrom.normalParts_ne_nil (h : SeenFrom root p q) : normalParts root ≠ [] := by
  intro hnil
  have hbase : normalize root = leading root := by
    rw [normalize_of_isAbsolute hroot, hnil]
    exact String.append_empty
  have htwo : leading root = "//" :=
    (leading_of_isAbsolute hroot).resolve_left fun hone => hne (hbase.trans hone)
  -- a third slash would be at the start of the names
  have htext : leading p ++ ofParts (normalParts p) = "//" ++ ("/" ++ q) := by
    rw [← normalize_of_isAbsolute hp, h.2, hbase, htwo, String.append_assoc]
  have hthird : isAbsolute (ofParts (normalParts p)) = true := by
    apply isAbsolute_iff.mpr
    rcases leading_of_isAbsolute hp with hlead | hlead
    · refine ⟨"/" ++ q, String.toList_inj.mp ?_⟩
      have hlist := congrArg String.toList htext
      rw [hlead] at hlist
      simpa using hlist
    · refine ⟨q, String.toList_inj.mp ?_⟩
      have hlist := congrArg String.toList htext
      rw [hlead] at hlist
      simpa using hlist
  rw [isAbsolute_ofParts_normalParts] at hthird
  cases hthird

/-- What is seen from a root consists of the names behind its own. -/
theorem SeenFrom.normalParts_eq (h : SeenFrom root p q) :
    normalParts p = normalParts root ++ parts q := by
  have hnames := h.normalParts_ne_nil hroot hne hp
  have hparts : parts (normalize p) = parts (normalize root) ++ parts q := by
    rw [h.2, parts_append_slash]
  have hsome : normalParts p ≠ [] := by
    intro hnil
    have hempty := nonEmptyParts_normalize hp
    rw [hnil, nonEmptyParts, hparts, List.filter_append, List.append_eq_nil_iff] at hempty
    rw [← nonEmptyParts_normalize hroot] at hnames
    exact hnames hempty.1
  have hbehind := dropWhile_parts_normalize hsome []
  rw [List.append_nil, List.append_nil, hparts, dropWhile_parts_normalize hnames] at hbehind
  exact hbehind.symm

theorem SeenFrom.isName (h : SeenFrom root p q) : ∀ name ∈ parts q, IsName name := by
  intro name hname
  apply isName_of_mem_normalParts hp
  rw [h.normalParts_eq hroot hne hp]
  exact List.mem_append_right _ hname

/-- What is seen from a root is a path without steps up. -/
theorem SeenFrom.relative (h : SeenFrom root p q) :
    isAbsolute q = false ∧ ".." ∉ parts q := by
  have hnames := h.isName hroot hne hp
  constructor
  · rw [← Bool.not_eq_true, isAbsolute_iff_head? h.1]
    intro hhead
    exact (hnames "" (List.mem_of_mem_head? hhead)).1 rfl
  · intro hup
    exact (hnames ".." hup).2.2 rfl

/-- A path has as many slashes at its start as a root that it is seen from. -/
theorem SeenFrom.leading_eq (h : SeenFrom root p q) : leading p = leading root := by
  have hnames := h.normalParts_ne_nil hroot hne hp
  have hjoined : ofParts (normalParts p) = ofParts (normalParts root) ++ "/" ++ q := by
    rw [h.normalParts_eq hroot hne hp, ofParts_append hnames (parts_ne_nil q), ofParts_parts]
  have htext : leading p ++ ofParts (normalParts p) = leading root ++ ofParts (normalParts p) := by
    rw [← normalize_of_isAbsolute hp, h.2, normalize_of_isAbsolute hroot, hjoined]
    simp only [String.append_assoc]
  apply String.toList_inj.mp
  have hlist := congrArg String.toList htext
  rw [String.toList_append, String.toList_append] at hlist
  exact List.append_cancel_right hlist

/-- A root continued by what is seen from it leads back to the path. -/
theorem SeenFrom.normalize_join (h : SeenFrom root p q) :
    normalize (join root q) = normalize p := by
  have hrelative := (h.relative hroot hne hp).1
  have hnamed : ∃ c ∈ root.toList, c ≠ '/' := by
    obtain ⟨name, hname⟩ := List.exists_mem_of_ne_nil _ (h.normalParts_ne_nil hroot hne hp)
    obtain ⟨c, hc⟩ := List.exists_mem_of_ne_nil name.toList
      (by simpa using ne_empty_of_mem_normalParts hname)
    refine ⟨c, mem_toList_of_mem_parts (mem_parts_of_mem_normalParts hname) hc, ?_⟩
    rintro rfl
    exact slash_not_mem_of_mem_normalParts hname hc
  have hlead : leading (join root q) = leading p := by
    obtain ⟨rest, hrest⟩ := exists_join_eq root hrelative
    rw [hrest, leading_append hnamed, h.leading_eq hroot hne hp]
  rw [normalize_of_isAbsolute (isAbsolute_join hroot q), normalize_of_isAbsolute hp, hlead,
    normalParts_join hroot hrelative (h.isName hroot hne hp), h.normalParts_eq hroot hne hp]

/-! ### Rewriting -/

/-- A normal form does not end in a slash, unless nothing else is in it. -/
theorem normalize_ne_append_slash : normalize p ≠ normalize root ++ "/" := by
  intro htext
  by_cases hnil : normalParts p = []
  · -- what stands before the slash of `/` is empty, and what stands before that of `//` is `/`
    rw [normalize_of_isAbsolute hp, hnil] at htext
    have hbase := isAbsolute_normalize hroot
    have hlist := congrArg String.toList htext
    rcases leading_of_isAbsolute hp with hlead | hlead
    · have hempty : normalize root = "" := by
        apply String.toList_inj.mp
        rw [hlead] at hlist
        simpa [ofParts, Text.joinWith] using hlist
      rw [hempty] at hbase
      exact absurd hbase (by decide)
    · refine hne (String.toList_inj.mp ?_)
      have hcancel : ['/'] ++ ['/'] = (normalize root).toList ++ ['/'] := by
        rw [hlead] at hlist
        simpa [ofParts, Text.joinWith] using hlist
      exact (List.append_cancel_right hcancel).symm
  · obtain ⟨slashes, -, hparts⟩ := parts_normalize hnil
    have hsplit := parts_append_slash (normalize root) ""
    rw [String.append_empty, ← htext, hparts, parts_empty] at hsplit
    have hlast := congrArg List.getLast? hsplit
    rw [List.getLast?_append_of_ne_nil _ hnil, List.getLast?_concat] at hlast
    exact ne_empty_of_mem_normalParts (List.mem_of_getLast? hlast) rfl

theorem isPrefixOf_iff_seenFrom :
    (normalize root ++ "/").toList.isPrefixOf (normalize p).toList = true ↔
      ∃ q, SeenFrom root p q := by
  rw [List.isPrefixOf_iff_prefix]
  constructor
  · intro ⟨rest, hrest⟩
    have htext : normalize p = normalize root ++ "/" ++ String.ofList rest := by
      apply String.toList_inj.mp
      rw [← hrest]
      simp only [String.toList_append, String.toList_ofList]
    refine ⟨String.ofList rest, ?_, htext⟩
    intro hempty
    rw [hempty, String.append_empty] at htext
    exact normalize_ne_append_slash hroot hne hp htext
  · intro ⟨q, h⟩
    refine ⟨q.toList, ?_⟩
    rw [h.2]
    exact String.toList_append.symm

theorem belowRoot_of_seenFrom (h : SeenFrom root p q) : belowRoot root p = q := by
  have hbelow := (isPrefixOf_iff_seenFrom hroot hne hp).mpr ⟨q, h⟩
  have hrest : (nonEmptyParts (normalize p)).drop (nonEmptyParts (normalize root)).length =
      parts q := by
    rw [nonEmptyParts_normalize hp, nonEmptyParts_normalize hroot, h.normalParts_eq hroot hne hp,
      List.drop_left]
  rw [belowRoot, if_pos hp]
  dsimp only
  rw [if_pos hbelow, hrest, List.isEmpty_eq_false_iff.mpr (parts_ne_nil q),
    if_neg Bool.false_ne_true, ofParts_parts]

theorem belowRoot_of_not_seenFrom (h : ¬ ∃ q, SeenFrom root p q) : belowRoot root p = p := by
  have hbelow := mt (isPrefixOf_iff_seenFrom hroot hne hp).mp h
  rw [belowRoot, if_pos hp]
  dsimp only
  rw [if_neg hbelow]

end

theorem belowRoot_of_relative (root : String) (hp : isAbsolute p = false) : belowRoot root p = p := by
  rw [belowRoot, hp, if_neg Bool.false_ne_true]

/-- What is seen from a root is not empty, unless nothing is looked at. -/
theorem belowRoot_eq_empty_iff : belowRoot root p = "" ↔ p = "" := by
  constructor
  · intro h
    rw [belowRoot] at h
    split at h
    · dsimp only at h
      split at h
      · split at h
        · simp at h
        · next hrest =>
          have hslash : ∀ part ∈ (nonEmptyParts (normalize p)).drop
              (nonEmptyParts (normalize root)).length, '/' ∉ part.toList := fun part hpart =>
            slash_not_mem_of_mem_parts (List.mem_of_mem_filter (List.mem_of_mem_drop hpart))
          have hback := parts_ofParts (by simpa using hrest) hslash
          -- a path of no text has one part, which is empty
          rw [h, parts_empty] at hback
          have hempty : "" ∈ nonEmptyParts (normalize p) :=
            List.mem_of_mem_drop (hback ▸ List.mem_singleton_self "")
          simp [nonEmptyParts] at hempty
      · exact h
    · exact h
  · rintro rfl
    exact belowRoot_of_relative root rfl

/-! ### The main statement -/

/-- **A path is rewritten exactly when it lies below the root, and names the same file before and
after.** An absolute path whose normal form continues that of the root becomes what follows, which
goes nowhere up; any other path is left as it is, one beside the root with a longer name too. Meant
from the root, the outcome is the path that was reported, in normal form. A second time nothing
changes. -/
theorem belowRoot_keeps_file (hroot : isAbsolute root = true) (hne : normalize root ≠ "/")
    (p : String) :
    (isAbsolute p = true →
      ((isAbsolute (belowRoot root p) = false ∧ ".." ∉ parts (belowRoot root p)) ↔
        ∃ q, SeenFrom root p q) ∧
      (∀ q, SeenFrom root p q → belowRoot root p = q) ∧
      ((¬ ∃ q, SeenFrom root p q) → belowRoot root p = p) ∧
      fromDirectory root (belowRoot root p) = normalize p) ∧
    (isAbsolute p = false → belowRoot root p = p) ∧
    belowRoot root (belowRoot root p) = belowRoot root p := by
  have hseen : isAbsolute p = true → ∀ q, SeenFrom root p q → belowRoot root p = q :=
    fun hp q h => belowRoot_of_seenFrom hroot hne hp h
  have hunseen : isAbsolute p = true → (¬ ∃ q, SeenFrom root p q) → belowRoot root p = p :=
    fun hp h => belowRoot_of_not_seenFrom hroot hne hp h
  refine ⟨fun hp => ⟨⟨fun hrelative => ?_, fun ⟨q, h⟩ => ?_⟩, hseen hp, hunseen hp, ?_⟩,
    belowRoot_of_relative root, ?_⟩
  · -- a path that is left as it is starts at the root of all roots
    by_contra hnone
    rw [hunseen hp hnone, hp] at hrelative
    exact Bool.noConfusion hrelative.1
  · rw [hseen hp q h]
    exact SeenFrom.relative hroot hne hp h
  · by_cases h : ∃ q, SeenFrom root p q
    · obtain ⟨q, h⟩ := h
      rw [hseen hp q h, fromDirectory, (h.relative hroot hne hp).1, if_neg Bool.false_ne_true,
        h.normalize_join hroot hne hp]
    · rw [hunseen hp h, fromDirectory, if_pos hp]
  · cases hp : isAbsolute p with
    | false => rw [belowRoot_of_relative root hp, belowRoot_of_relative root hp]
    | true =>
      by_cases h : ∃ q, SeenFrom root p q
      · obtain ⟨q, h⟩ := h
        rw [hseen hp q h, belowRoot_of_relative root (h.relative hroot hne hp).1]
      · rw [hunseen hp h, hunseen hp h]

/-- A path with a step up in it, below a root that is written with slashes to spare. -/
theorem belowRoot_keeps_file_module :
    isAbsolute "/srv//repo/" = true ∧ normalize "/srv//repo/" ≠ "/" ∧
      belowRoot "/srv//repo/" "/srv/x/../repo/src/app.py" = "src/app.py" ∧
      fromDirectory "/srv//repo/" (belowRoot "/srv//repo/" "/srv/x/../repo/src/app.py") =
        "/srv/repo/src/app.py" ∧
      belowRoot "/srv//repo/" "/srv/repository/app.py" = "/srv/repository/app.py" := by
  have hroot : isAbsolute "/srv//repo/" = true := by decide
  have hne : normalize "/srv//repo/" ≠ "/" := by decide
  have hbelow := (belowRoot_keeps_file hroot hne "/srv/x/../repo/src/app.py").1 (by decide)
  have hbeside := (belowRoot_keeps_file hroot hne "/srv/repository/app.py").1 (by decide)
  have hnormal : normalize "/srv/x/../repo/src/app.py" = "/srv/repo/src/app.py" := by decide
  refine ⟨hroot, hne, ?_, ?_, ?_⟩
  · exact hbelow.2.1 "src/app.py" (by decide)
  · exact hbelow.2.2.2.trans hnormal
  · apply hbeside.2.2.1
    -- the names differ before the slash
    exact mt (isPrefixOf_iff_seenFrom hroot hne (by decide)).mpr (by decide)

end RepoAudit.Path
