import RepoAudit.Files.Make
import RepoAudit.Proofs.Failing
import RepoAudit.Proofs.Files.Refusal
import RepoAudit.Proofs.Files.WellFormed

/-!
# Where a new directory stands

A directory is made where the rest of its path leads, and its path leads to it from then on.

* `FileTree.locateFrom_mono` — a path that leads somewhere leads there when more is in the tree;
* `FileTree.locateFrom_append` — a path that is continued leads on from where it leads;
  `FileTree.locateFrom_of_slash`, `FileTree.locateFrom_concat` — by a slash, and by a name;
* `FileTree.makeDirectory_eq_ok_iff`, `FileTree.newPlace_concat` — when a directory is made, and
  where;
* `FileTree.makeDirectory_join` — **a directory made in another one stands in it, under its name, and
  its path leads to it**.
-/

namespace RepoAudit.FileTree

variable {t t' : FileTree} {cwd loc place : Location} {followLast : Bool} {links : Nat}
  {todo before : List String} {name path root : String}

/-! ### Opening in a larger tree, and further on -/

/-- A path that leads somewhere leads there when more is in the tree. -/
theorem locateFrom_mono (hmore : ∀ l e, t.entryAt? l = some e → t'.entryAt? l = some e)
    (h : t.locateFrom followLast links loc todo = .ok place) :
    t'.locateFrom followLast links loc todo = .ok place := by
  fun_induction locateFrom t followLast links loc todo with
  | case1 links loc =>
    rw [locateFrom]
    exact h
  | case2 links loc name todo hdir hidle ih =>
    rw [locateFrom_idle (hmore _ _ hdir) hidle]
    exact ih h
  | case3 links loc todo hdir hidle ih =>
    rw [locateFrom_up (hmore _ _ hdir)]
    exact ih h
  | case4 => cases h
  | case5 => cases h
  | case6 links loc name todo hdir hidle hup hshort target hlink hlast =>
    rw [locateFrom_last (hmore _ _ hdir) hidle hup hshort (hmore _ _ hlink) hlast]
    exact h
  | case7 => cases h
  | case8 loc name todo hdir hidle hup hshort target hlink hlast links ih =>
    rw [locateFrom_link (hmore _ _ hdir) hidle hup hshort (hmore _ _ hlink) hlast]
    exact ih h
  | case9 links loc name todo hdir hidle hup hshort e hlink hentry ih =>
    rw [locateFrom_enter (hmore _ _ hdir) hidle hup hshort (hmore _ _ hentry) hlink]
    exact ih h
  | case10 => cases h

/-- What is continued does not end where it did. -/
theorem not_last_of_append (todo : List String) {rest : List String}
    (h : followLast = true ∨ rest ≠ []) : ¬ ((todo ++ rest).isEmpty && !followLast) = true := by
  rcases h with rfl | h <;> simp [*]

/-- A path that is continued leads on from where it leads, with the links it has left. Only a link at
the very end is perhaps not followed. -/
theorem locateFrom_append (t : FileTree) (links : Nat) (loc : Location) (todo : List String) :
    ∃ left ≤ links, ∀ followLast rest, followLast = true ∨ rest ≠ [] →
      t.locateFrom followLast links loc (todo ++ rest) =
        t.locateFrom true links loc todo >>= fun mid => t.locateFrom followLast left mid rest := by
  fun_induction locateFrom t true links loc todo with
  | case1 links loc => exact ⟨links, le_rfl, fun followLast rest _ => rfl⟩
  | case2 links loc name todo hdir hidle ih =>
    obtain ⟨left, hle, ih⟩ := ih
    exact ⟨left, hle, fun _ rest hrest => (locateFrom_idle hdir hidle).trans (ih _ rest hrest)⟩
  | case3 links loc todo hdir hidle ih =>
    obtain ⟨left, hle, ih⟩ := ih
    exact ⟨left, hle, fun _ rest hrest => (locateFrom_up hdir).trans (ih _ rest hrest)⟩
  | case4 links loc name todo hdir hidle hup hlong =>
    exact ⟨links, le_rfl, fun _ rest _ => locateFrom_long hdir hidle hup hlong⟩
  | case5 links loc name todo hdir hidle hup hshort hnone =>
    exact ⟨links, le_rfl, fun _ rest _ => locateFrom_missing hdir hidle hup hshort hnone⟩
  | case6 links loc name todo hdir hidle hup hshort target hlink hlast => simp at hlast
  | case7 loc name todo hdir hidle hup hshort target hlink hlast =>
    exact ⟨0, le_rfl, fun followLast rest hrest =>
      locateFrom_no_links hdir hidle hup hshort hlink (not_last_of_append todo hrest)⟩
  | case8 loc name todo hdir hidle hup hshort target hlink hlast links ih =>
    obtain ⟨left, hle, ih⟩ := ih
    refine ⟨left, Nat.le_succ_of_le hle, fun followLast rest hrest => ?_⟩
    rw [List.cons_append, locateFrom_link hdir hidle hup hshort hlink (not_last_of_append todo hrest),
      ← List.append_assoc]
    exact ih followLast rest hrest
  | case9 links loc name todo hdir hidle hup hshort e hlink hentry ih =>
    obtain ⟨left, hle, ih⟩ := ih
    exact ⟨left, hle, fun _ rest hrest =>
      (locateFrom_enter hdir hidle hup hshort hentry hlink).trans (ih _ rest hrest)⟩
  | case10 links loc name todo hdir =>
    exact ⟨links, le_rfl, fun _ rest _ => locateFrom_of_not_directory hdir⟩

/-- A path that leads somewhere leads there when it may pass through more links. -/
theorem locateFrom_more_links {more : Nat} (hle : links ≤ more)
    (h : t.locateFrom followLast links loc todo = .ok place) :
    t.locateFrom followLast more loc todo = .ok place := by
  fun_induction locateFrom t followLast links loc todo generalizing more with
  | case1 links loc =>
    rw [locateFrom]
    exact h
  | case2 links loc name todo hdir hidle ih =>
    rw [locateFrom_idle hdir hidle]
    exact ih hle h
  | case3 links loc todo hdir hidle ih =>
    rw [locateFrom_up hdir]
    exact ih hle h
  | case4 => cases h
  | case5 => cases h
  | case6 links loc name todo hdir hidle hup hshort target hlink hlast =>
    rw [locateFrom_last hdir hidle hup hshort hlink hlast]
    exact h
  | case7 => cases h
  | case8 loc name todo hdir hidle hup hshort target hlink hlast links ih =>
    obtain ⟨more, rfl⟩ := Nat.exists_eq_succ_of_ne_zero (Nat.ne_of_gt (Nat.zero_lt_of_lt hle))
    rw [locateFrom_link hdir hidle hup hshort hlink hlast]
    exact ih (Nat.succ_le_succ_iff.mp hle) h
  | case9 links loc name todo hdir hidle hup hshort e hlink hentry ih =>
    rw [locateFrom_enter hdir hidle hup hshort hentry hlink]
    exact ih hle h
  | case10 => cases h

/-- A path with a slash at its end leads to a directory, and without the slash it leads there too. -/
theorem locateFrom_of_slash (h : t.locateFrom true links loc (todo ++ [""]) = .ok place) :
    t.locateFrom true links loc todo = .ok place ∧ t.entryAt? place = some .directory := by
  obtain ⟨left, -, happend⟩ := locateFrom_append t links loc todo
  rw [happend _ _ (.inl rfl)] at h
  obtain ⟨mid, hmid, hslash⟩ := bind_eq_ok_iff.mp h
  by_cases hdir : t.entryAt? mid = some .directory
  · rw [locateFrom_idle hdir (.inl rfl), locateFrom, Except.ok.injEq] at hslash
    exact hslash ▸ ⟨hmid, hdir⟩
  · rw [locateFrom_of_not_directory hdir] at hslash
    cases hslash

/-- A path continued by the name of a directory leads to that directory. -/
theorem locateFrom_concat (h : t.locateFrom true links loc todo = .ok place)
    (hdir : t.entryAt? place = some .directory) (hname : Path.IsName name)
    (hshort : (Text.nameBytes name).length ≤ maxNameLength)
    (hentry : t.entryAt? (place ++ [name]) = some .directory) :
    t.locateFrom true links loc (todo ++ [name]) = .ok (place ++ [name]) := by
  obtain ⟨left, -, happend⟩ := locateFrom_append t links loc todo
  rw [happend _ _ (.inl rfl), h, ok_bind, locateFrom_enter hdir hname.not_idle hname.2.2
    (not_lt.mpr hshort) hentry (by simp), locateFrom]

/-! ### A new directory -/

/-- A path is followed from where it starts, unless it is refused for what it is. -/
theorem locate_eq_ok_iff {followLast : Bool} {path : String} :
    t.locate cwd followLast path = .ok place ↔ Path.IsPassable path ∧ path ≠ "" ∧
      (Text.nameBytes path).length ≤ maxPathLength ∧
      t.locateFrom followLast maxLinks (cwd.start path) (Path.parts path) = .ok place := by
  rw [locate, ← not_lt]
  split
  · next hrefused => simp [hrefused]
  split
  · next hempty => simp [hempty]
  split
  · next hlong => simp [hlong]
  · next hpass hempty hlong => simp [not_not.mp hpass, hempty, hlong, Location.start]

/-- A directory is made where its path says, if nothing is there. -/
theorem makeDirectory_eq_ok_iff :
    t.makeDirectory cwd path = .ok (t', loc) ↔
      t.newPlace cwd path = .ok loc ∧ t.entryAt? loc = none ∧ t' = t.put loc .directory := by
  rw [makeDirectory, bind_eq_ok_iff]
  constructor
  · rintro ⟨place, hplace, h⟩
    dsimp only at h
    split at h
    · exact absurd h throw_ne_ok
    · next hfree =>
      obtain ⟨rfl, rfl⟩ := Prod.mk.inj (pure_eq_ok_iff.mp h)
      exact ⟨hplace, Option.not_isSome_iff_eq_none.mp hfree, rfl⟩
  · rintro ⟨hplace, hnone, rfl⟩
    refine ⟨loc, hplace, ?_⟩
    dsimp only
    rw [if_neg (by simp [hnone])]
    rfl

/-- Paths that begin alike start alike. -/
theorem start_eq_start {p q : String} (hp : p ≠ "") (hq : q ≠ "")
    (h : (Path.parts p).head? = (Path.parts q).head?) (loc : Location) : loc.start p = loc.start q := by
  have hiff : Path.isAbsolute p = true ↔ Path.isAbsolute q = true := by
    rw [Path.isAbsolute_iff_head? hp, Path.isAbsolute_iff_head? hq, h]
  rw [Location.start, Location.start, Bool.eq_iff_iff.mpr hiff]

/-- What ends in a name stands in the directory that the rest of the path leads to. -/
theorem newPlace_concat (hparts : Path.parts path = before ++ [name]) (hbefore : before ≠ [])
    (hname : Path.IsName name) (h : t.newPlace cwd path = .ok loc) :
    Path.IsPassable path ∧ (Text.nameBytes path).length ≤ maxPathLength ∧
      (Text.nameBytes name).length ≤ maxNameLength ∧
      ∃ parent, t.locateFrom true maxLinks (cwd.start path) before = .ok parent ∧
        t.entryAt? parent = some .directory ∧ loc = parent ++ [name] := by
  have hbase : Path.baseName path = name := by
    rw [Path.baseName, hparts, List.getLast?_concat, Option.getD_some]
  have hseveral : (Path.parts path).length ≠ 1 := by
    rw [hparts, List.length_append, List.length_singleton]
    have hpos := List.length_pos_iff.mpr hbefore
    omega
  rw [newPlace] at h
  split at h
  · cases h
  next hpass =>
  split at h
  · cases h
  next hempty =>
  split at h
  · cases h
  next hlong =>
  dsimp only at h
  rw [if_neg hseveral, hbase, hparts, List.dropLast_concat] at h
  obtain ⟨parent, hparent, h⟩ := bind_eq_ok_iff.mp h
  split at h
  · exact absurd h throw_ne_ok
  split at h
  · exact absurd h throw_ne_ok
  next hshort =>
  rw [if_neg hname.not_idle, if_neg hname.2.2, pure_eq_ok_iff] at h
  obtain ⟨-, hne, -, hparent⟩ := locate_eq_ok_iff.mp hparent
  -- the rest of the path is opened with a slash at its end
  have hrest : Path.parts (Path.ofParts (before ++ [""])) = before ++ [""] := by
    refine Path.parts_ofParts (by simp) fun part hpart => ?_
    rcases List.mem_append.mp hpart with hold | hlast
    · exact Path.slash_not_mem_of_mem_parts (hparts ▸ List.mem_append_left _ hold)
    · simp [List.mem_singleton.mp hlast]
  have hstart : cwd.start (Path.ofParts (before ++ [""])) = cwd.start path := by
    refine start_eq_start hne hempty ?_ cwd
    rw [hrest, hparts, List.head?_append_of_ne_nil _ hbefore, List.head?_append_of_ne_nil _ hbefore]
  rw [hrest, hstart] at hparent
  obtain ⟨hparent, hdir⟩ := locateFrom_of_slash hparent
  exact ⟨not_not.mp hpass, not_lt.mp hlong, not_lt.mp hshort, parent, hparent, hdir, h.symm⟩

/-- A directory is refused exactly when the system does not take its path. -/
theorem makeDirectory_eq_refused_iff :
    (∃ r, t.makeDirectory cwd path = .error (.refused r)) ↔ ¬ Path.IsPassable path := by
  constructor
  · rintro ⟨r, h⟩
    rcases bind_eq_error_iff.mp h with hplace | ⟨place, -, h⟩
    · rw [newPlace] at hplace
      split at hplace
      · assumption
      split at hplace
      · cases hplace
      split at hplace
      · cases hplace
      dsimp only at hplace
      rcases bind_eq_error_iff.mp hplace with hopen | ⟨parent, -, hrest⟩
      · -- the rest of the path holds no other characters
        refine fun hpass => (locate_eq_refused_iff.mp hopen).1 ?_
        split
        · decide
        · refine Path.isPassable_ofParts_iff.mpr fun part hpart => ?_
          rcases List.mem_append.mp hpart with hpart | hlast
          · exact hpass.parts part (List.mem_of_mem_dropLast hpart)
          · rw [List.mem_singleton.mp hlast]
            decide
      · split at hrest
        · cases hrest
        split at hrest
        · cases hrest
        · exact absurd hrest pure_ne_error
    · dsimp only at h
      split at h
      · cases h
      · exact absurd h pure_ne_error
  · intro h
    rw [makeDirectory, newPlace, if_pos h]
    exact ⟨_, rfl⟩

/-- The last stage of a path is the path itself. -/
theorem mem_stages (path : String) : path ∈ stages path := by
  rw [stages, List.mem_map]
  have hpos := List.length_pos_iff.mpr (Path.parts_ne_nil path)
  refine ⟨(Path.parts path).length - 1, List.mem_range.mpr (by omega), ?_⟩
  rw [Nat.sub_add_cancel hpos, List.take_length, Path.ofParts_parts]

/-- A directory that could be made has a path that can be opened. -/
theorem ne_empty_of_makePath (h : t.makePath cwd path = .ok t') :
    path ≠ "" ∧ Path.IsPassable path := by
  rw [makePath] at h
  split at h
  · cases h
  next hempty =>
  obtain ⟨u, u', hstep⟩ := exists_step_of_foldlM h (mem_stages path)
  refine ⟨hempty, not_not.mp fun hrefused => ?_⟩
  have hleads : u.leadsToDirectory cwd path = false := by
    rw [leadsToDirectory, locate_eq_refused_iff.mpr ⟨hrefused, rfl⟩]
  obtain ⟨r, hmake⟩ := makeDirectory_eq_refused_iff.mpr hrefused
  rw [hleads, if_neg (by simp [hempty]), hmake] at hstep
  cases hstep

/-! ### A path continued by a name -/

/-- A path continued by a name starts where it did, and its other parts lead where it led. -/
theorem parts_join (hpath : path ≠ "") (hslash : '/' ∉ name.toList) (hname : name ≠ "")
    (cwd : Location) :
    ∃ before, Path.parts (Path.join path name) = before ++ [name] ∧ before ≠ [] ∧
      Path.join path name ≠ "" ∧ cwd.start (Path.join path name) = cwd.start path ∧
      (Path.parts path = before ∨ Path.parts path = before ++ [""]) := by
  obtain ⟨before, hparts, hrest⟩ := Path.parts_join_name hpath hslash
  have hbefore : before ≠ [] := by
    rintro rfl
    rcases hrest with hrest | hrest
    · exact Path.parts_ne_nil path hrest
    · have hofParts := Path.ofParts_parts path
      rw [hrest] at hofParts
      exact hpath hofParts.symm
  have hne : Path.join path name ≠ "" := by
    intro hempty
    rw [hempty, Path.parts_empty] at hparts
    have hlast := congrArg List.getLast? hparts
    rw [List.getLast?_concat] at hlast
    exact hname (Option.some.inj hlast).symm
  refine ⟨before, hparts, hbefore, hne, start_eq_start hne hpath ?_ cwd, hrest⟩
  rcases hrest with hrest | hrest <;>
    rw [hparts, hrest, List.head?_append_of_ne_nil _ hbefore]
  rw [List.head?_append_of_ne_nil _ hbefore]

/-- **A directory made in another one stands in it, under its name, where nothing was before.** The name
is one that file systems have, and its path leads to it from then on, as long as it stays and all else does. -/
theorem makeDirectory_join (hroot : root ≠ "") (hname : Path.IsName name)
    (hslash : '/' ∉ name.toList)
    (h : t.makeDirectory cwd (Path.join root name) = .ok (t', loc)) :
    ∃ parent, t.locate cwd true root = .ok parent ∧ t.entryAt? parent = some .directory ∧
      loc = parent ++ [name] ∧ t.entryAt? loc = none ∧ t' = t.put loc .directory ∧ IsFileName name ∧
      ∀ u : FileTree, (∀ l e, t.entryAt? l = some e → u.entryAt? l = some e) →
        u.entryAt? loc = some .directory → u.locate cwd true (Path.join root name) = .ok loc := by
  obtain ⟨before, hparts, hbefore, hne, hstart, hrest⟩ := parts_join hroot hslash hname.1 cwd
  obtain ⟨hplace, hnone, rfl⟩ := makeDirectory_eq_ok_iff.mp h
  obtain ⟨hpass, hpath, hshort, parent, hparent, hdir, rfl⟩ :=
    newPlace_concat hparts hbefore hname hplace
  obtain ⟨rest, hjoin⟩ := Path.exists_join_eq root (Path.isAbsolute_of_slash_not_mem hslash)
  have hroot' : Path.IsPassable root ∧ (Text.nameBytes root).length ≤ maxPathLength := by
    rw [hjoin, Path.isPassable_append] at hpass
    rw [hjoin, Text.nameBytes_append, List.length_append] at hpath
    exact ⟨hpass.1, by omega⟩
  have hfile : IsFileName name :=
    ⟨hname, hslash, hpass.parts name (by rw [hparts]; simp), hshort⟩
  refine ⟨parent, locate_eq_ok_iff.mpr ⟨hroot'.1, hroot, hroot'.2, ?_⟩, hdir, rfl, hnone, rfl, hfile, ?_⟩
  · rw [← hstart]
    rcases hrest with hrest | hrest
    · rwa [hrest]
    · obtain ⟨left, -, happend⟩ := locateFrom_append t maxLinks (cwd.start (Path.join root name)) before
      rw [hrest, happend _ _ (.inl rfl), hparent, ok_bind, locateFrom_idle hdir (.inl rfl), locateFrom]
  · intro u hmore hentry
    refine locate_eq_ok_iff.mpr ⟨hpass, hne, hpath, ?_⟩
    rw [hparts]
    exact locateFrom_concat (locateFrom_mono hmore hparent) (hmore _ _ hdir) hname hshort hentry

end RepoAudit.FileTree
