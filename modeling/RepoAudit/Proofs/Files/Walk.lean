import Mathlib.Algebra.GroupWithZero.Nat
import Mathlib.Algebra.Order.BigOperators.Group.List
import Mathlib.Algebra.Order.Group.Nat
import RepoAudit.Files.Walk
import RepoAudit.Proofs.Files.Making

/-!
# What a walk through a file tree finds

A walk comes to directories by their paths, which can be too long, and calls can be nested too deep.
Where neither happens, descending from directory to directory misses nothing and finds nothing twice.

* `FileTree.locate_join_directory`, `FileTree.locate_join_last` — where a path continued by a name
  leads;
* `FileTree.Walkable` — no path is too long and nothing is nested too deep;
  `FileTree.walkable_succ_iff` — seen level by level;
* `FileTree.walk_eq` — what a walk comes to then; `FileTree.stop_walk_eq_none_iff` — **a strict walk
  comes to its end exactly then**; `FileTree.stop_walk_cases` — what ends it early;
* `FileTree.mem_filesFound_iff`, `FileTree.nodup_filesFound` — what a walk finds, and that it finds it
  once; `FileTree.names_walk` — that this is all, where the links to directories can be followed;
* `FileTree.occupied`, `FileTree.occupied_le_of_measure` — **what is measured is at least the sum of the
  sizes of all entries below the directory** that are neither directories nor links to directories;
  `FileTree.exists_long_of_measure` — what keeps it from being measured.
-/

namespace RepoAudit

namespace Walk

variable {w w' : Walk} {ws : List Walk}

theorem followedBy_of_none (h : w.stop = none) :
    w.followedBy w' = ⟨w.visits ++ w'.visits, w'.stop⟩ := by
  rw [followedBy, h]

theorem inTurn_of_none (h : w.stop = none) :
    inTurn (w :: ws) = ⟨w.visits ++ (inTurn ws).visits, (inTurn ws).stop⟩ :=
  followedBy_of_none h

theorem inTurn_of_some {stop : WalkStop} (h : w.stop = some stop) : inTurn (w :: ws) = w := by
  rw [inTurn, List.foldr_cons, followedBy, h]

/-- Walks one after the other come to their end when each of them does. -/
theorem stop_inTurn_eq_none_iff : (inTurn ws).stop = none ↔ ∀ w ∈ ws, w.stop = none := by
  induction ws with
  | nil => simp [inTurn]
  | cons w ws ih =>
    rw [List.forall_mem_cons, ← ih]
    cases hw : w.stop with
    | none => simp [inTurn_of_none hw]
    | some stop => simp [inTurn_of_some hw, hw]

theorem visits_inTurn (h : ∀ w ∈ ws, w.stop = none) :
    (inTurn ws).visits = ws.flatMap visits := by
  induction ws with
  | nil => rfl
  | cons w ws ih =>
    rw [List.forall_mem_cons] at h
    rw [List.flatMap_cons, ← ih h.2, inTurn_of_none h.1]

end Walk

namespace FileTree

variable {t : FileTree} {cwd loc root l place : Location} {path name : String} {names : List String}
  {keep : String → Bool} {strict followLast : Bool} {levels links : Nat} {e : Entry}

/-! ### A path continued by a name -/

/-- Names on the way to a directory lead to it, through no link. -/
theorem locateFrom_names (h : t.WellFormed) (hdir : t.entryAt? (loc ++ names) = some .directory)
    (rest : List String) :
    t.locateFrom followLast links loc (names ++ rest) =
      t.locateFrom followLast links (loc ++ names) rest := by
  induction names generalizing loc with
  | nil => rw [List.append_nil, List.nil_append]
  | cons name names ih =>
    rw [List.append_cons] at hdir ⊢
    have hsome : (t.entryAt? (loc ++ [name] ++ names)).isSome := by rw [hdir]; rfl
    have hhere : t.entryAt? (loc ++ [name]) = some .directory := by
      by_cases hnil : names = []
      · rwa [hnil, List.append_nil] at hdir
      · exact h.above hsome (List.prefix_append _ _) (by simpa using hnil)
    have hname : IsFileName name := h.isFileName hsome (by simp)
    rw [List.cons_append, locateFrom_enter (h.parent loc name (by rw [hhere]; rfl))
      hname.isName.not_idle hname.isName.2.2 (not_lt.mpr hname.short) hhere
      (by simp)]
    exact ih hdir

/-- A path that leads to a directory leads on from there when it is continued by a name, with the links
it has left, unless it becomes too long. -/
theorem locate_join (hopen : t.locate cwd true path = .ok loc) (hname : IsFileName name) :
    ∃ left ≤ maxLinks, ∀ followLast, t.locate cwd followLast (Path.join path name) =
      if maxPathLength < (Text.nameBytes (Path.join path name)).length then .error .nameTooLong
      else t.locateFrom followLast left loc [name] := by
  obtain ⟨hpass, hne, -, hfrom⟩ := locate_eq_ok_iff.mp hopen
  obtain ⟨before, hparts, -, hne', hstart, hrest⟩ :=
    parts_join hne hname.noSlash hname.isName.1 cwd
  have hbefore : t.locateFrom true maxLinks (cwd.start path) before = .ok loc := by
    rcases hrest with hrest | hrest
    · exact hrest ▸ hfrom
    · rw [hrest] at hfrom
      exact (locateFrom_of_slash hfrom).1
  obtain ⟨left, hle, happend⟩ := locateFrom_append t maxLinks (cwd.start path) before
  refine ⟨left, hle, fun followLast => ?_⟩
  have hfollow := happend followLast [name] (.inr (by simp))
  rw [hbefore, ok_bind, ← hstart, Location.start] at hfollow
  rw [locate, if_neg (not_not.mpr (hpass.join hname.passable)), if_neg hne', hparts, hfollow]

section Entries

variable (hopen : t.locate cwd true path = .ok loc) (hdir : t.entryAt? loc = some .directory)
  (hname : IsFileName name)

include hopen hdir hname

/-- The path of a directory in another one leads to it, unless it is too long. -/
theorem locate_join_directory (hentry : t.entryAt? (loc ++ [name]) = some .directory) :
    t.locate cwd true (Path.join path name) =
      if maxPathLength < (Text.nameBytes (Path.join path name)).length then .error .nameTooLong
      else .ok (loc ++ [name]) := by
  obtain ⟨left, -, hjoin⟩ := locate_join hopen hname
  rw [hjoin, locateFrom_enter hdir hname.isName.not_idle hname.isName.2.2
    (not_lt.mpr hname.short) hentry (by simp), locateFrom]

/-- The path of an entry of a directory, not followed any further, leads to it, unless it is too
long. -/
theorem locate_join_last (hentry : t.entryAt? (loc ++ [name]) = some e) :
    t.locate cwd false (Path.join path name) =
      if maxPathLength < (Text.nameBytes (Path.join path name)).length then .error .nameTooLong
      else .ok (loc ++ [name]) := by
  obtain ⟨left, -, hjoin⟩ := locate_join hopen hname
  have hidle : ¬ (name = "" ∨ name = ".") := hname.isName.not_idle
  rw [hjoin]
  congr 1
  cases e with
  | link target =>
    exact locateFrom_last hdir hidle hname.isName.2.2 (not_lt.mpr hname.short) hentry rfl
  | _ =>
    rw [locateFrom_enter hdir hidle hname.isName.2.2 (not_lt.mpr hname.short) hentry (by simp),
      locateFrom]

/-- A link whose path leads to a directory is a link to one. -/
theorem isDirectoryAt_of_leadsToDirectory (h : t.WellFormed)
    (hleads : t.leadsToDirectory cwd (Path.join path name) = true) :
    t.isDirectoryAt (loc ++ [name]) = true := by
  obtain ⟨left, hle, hjoin⟩ := locate_join hopen hname
  rw [leadsToDirectory, hjoin] at hleads
  have hwhole : t.locateFrom true maxLinks [] (loc ++ [name]) = t.locateFrom true maxLinks loc [name] :=
    locateFrom_names (by simpa using h) (by simpa using hdir) [name]
  split at hleads
  · next place hplace =>
    split at hplace
    · cases hplace
    · rw [isDirectoryAt, hwhole, locateFrom_more_links hle hplace]
      exact hleads
  · cases hleads

end Entries

/-! ### Names in a directory -/

/-- The name of a location directly inside another. -/
theorem childName_eq_some_iff :
    (if loc.isPrefixOf l && l.length == loc.length + 1 then l.getLast? else none) = some name ↔
      l = loc ++ [name] := by
  constructor
  · intro h
    split at h
    · next hchild =>
      rw [Bool.and_eq_true, List.isPrefixOf_iff_prefix, beq_iff_eq] at hchild
      obtain ⟨⟨rest, rfl⟩, hlength⟩ := hchild
      obtain ⟨last, rfl⟩ : ∃ last, rest = [last] := by
        rw [← List.length_eq_one_iff]
        rw [List.length_append] at hlength
        omega
      rw [List.getLast?_concat, Option.some.injEq] at h
      rw [h]
    · cases h
  · rintro rfl
    have habove : loc.isPrefixOf (loc ++ [name]) = true :=
      List.isPrefixOf_iff_prefix.mpr (List.prefix_append _ _)
    rw [habove, List.length_append, List.getLast?_concat]
    simp

theorem namesIn_eq (t : FileTree) (loc : Location) :
    t.namesIn loc = t.locations.filterMap fun l =>
      if loc.isPrefixOf l && l.length == loc.length + 1 then l.getLast? else none := by
  rw [locations, List.filterMap_map]
  rfl

theorem mem_namesIn_iff : name ∈ t.namesIn loc ↔ loc ++ [name] ∈ t.locations := by
  rw [namesIn_eq, List.mem_filterMap]
  constructor
  · rintro ⟨l, hl, hname⟩
    exact childName_eq_some_iff.mp hname ▸ hl
  · intro hl
    exact ⟨_, hl, childName_eq_some_iff.mpr rfl⟩

theorem nodup_namesIn (h : t.WellFormed) (loc : Location) : (t.namesIn loc).Nodup := by
  rw [namesIn_eq]
  refine h.nodup.filterMap fun l l' name hl hl' => ?_
  rw [childName_eq_some_iff.mp hl, childName_eq_some_iff.mp hl']

/-- What counts for the size of a directory: what is neither a directory nor a link to one. -/
def isCounted (t : FileTree) (loc : Location) : Bool :=
  match t.entryAt? loc with
  | some (.file _) => true
  | some (.link _) => !t.isDirectoryAt loc
  | _ => false

theorem isSome_of_isCounted (h : t.isCounted loc = true) : (t.entryAt? loc).isSome := by
  rw [isCounted] at h
  cases hentry : t.entryAt? loc with
  | none =>
    rw [hentry] at h
    cases h
  | some e => rfl

theorem mem_locations_of_isCounted (h : t.isCounted l = true) : l ∈ t.locations := by
  have hne : l ≠ [] := by
    rintro rfl
    simp [isCounted, FileTree.entryAt?] at h
  exact (isSome_entryAt?_iff hne).mp (isSome_of_isCounted h)

/-- An entry of a directory that does not look like a directory counts, if it is no link or one that
does not lead to a directory. -/
theorem not_looksLikeDirectory_of_isCounted (h : t.WellFormed)
    (hopen : t.locate cwd true path = .ok loc) (hdir : t.entryAt? loc = some .directory)
    (hcounted : t.isCounted (loc ++ [name]) = true) :
    t.looksLikeDirectory cwd path loc name = false := by
  have hname : IsFileName name := h.isFileName (isSome_of_isCounted hcounted) (by simp)
  rw [isCounted] at hcounted
  rw [looksLikeDirectory]
  split at hcounted
  · next hentry => rw [hentry]
  · next target hentry =>
    rw [hentry, Bool.eq_false_iff]
    intro hleads
    rw [isDirectoryAt_of_leadsToDirectory hopen hdir hname h hleads] at hcounted
    cases hcounted
  · cases hcounted

theorem looksLikeDirectory_of_directory (h : t.entryAt? (loc ++ [name]) = some .directory) :
    t.looksLikeDirectory cwd path loc name = true := by
  rw [looksLikeDirectory, h]

theorem isSome_of_looksLikeDirectory (h : t.looksLikeDirectory cwd path loc name = true) :
    (t.entryAt? (loc ++ [name])).isSome := by
  rw [looksLikeDirectory] at h
  split at h
  · next hentry => rw [hentry]; rfl
  · next hentry => rw [hentry]; rfl
  · cases h

/-! ### Directories to be entered -/

/-- The names of the directories in a directory that are kept. -/
def entered (t : FileTree) (keep : String → Bool) (loc : Location) : List String :=
  (t.namesIn loc).filter fun name => keep name && t.entryAt? (loc ++ [name]) = some .directory

theorem mem_entered_iff :
    name ∈ t.entered keep loc ↔ keep name = true ∧ t.entryAt? (loc ++ [name]) = some .directory := by
  rw [entered, List.mem_filter, Bool.and_eq_true, decide_eq_true_eq, mem_namesIn_iff]
  refine and_iff_right_of_imp fun h => (isSome_entryAt?_iff (by simp)).mp ?_
  rw [h.2]
  rfl

/-- The path of what stands under some names below the directory of a path. -/
def pathBelow (path : String) (names : List String) : String := names.foldl Path.join path

/-- A walk from a path that leads to `root` can go everywhere: the paths of directories to be entered
are not too long, and what is or looks like one lies in a directory from which calls may still
descend. -/
structure Walkable (t : FileTree) (cwd : Location) (keep : String → Bool) (levels : Nat) (path : String)
    (root : Location) : Prop where
  short : ∀ names, (∀ name ∈ names, keep name = true) →
    t.entryAt? (root ++ names) = some .directory →
      (Text.nameBytes (pathBelow path names)).length ≤ maxPathLength
  shallow : ∀ names name, (∀ n ∈ names ++ [name], keep n = true) →
    t.looksLikeDirectory cwd (pathBelow path names) (root ++ names) name = true →
      names.length < levels

/-- A directory to be entered lies in one to be entered. -/
theorem mem_entered_of_cons (h : t.WellFormed) (hkept : ∀ n ∈ name :: names, keep n = true)
    (hsome : (t.entryAt? (root ++ name :: names)).isSome)
    (hdir : names = [] → t.entryAt? (root ++ [name]) = some .directory) :
    name ∈ t.entered keep root := by
  refine mem_entered_iff.mpr ⟨hkept name List.mem_cons_self, ?_⟩
  by_cases hnil : names = []
  · exact hdir hnil
  · exact h.above hsome ⟨names, by simp⟩ (by simpa using Ne.symm hnil)

/-- Where no call descends nothing must look like a directory to be entered. -/
theorem walkable_zero_iff (h : t.WellFormed)
    (hpath : (Text.nameBytes path).length ≤ maxPathLength) :
    t.Walkable cwd keep 0 path root ↔ (t.directoriesIn cwd path root).filter keep = [] := by
  rw [List.filter_eq_nil_iff]
  constructor
  · intro hwalk name hname hkeep
    have hlooks : t.looksLikeDirectory cwd (pathBelow path []) (root ++ []) name = true := by
      rw [List.append_nil]
      exact (List.mem_filter.mp hname).2
    exact absurd (hwalk.shallow [] name (by simpa using hkeep) hlooks) (Nat.not_lt_zero _)
  · intro hnone
    have habsurd : ∀ name names, (∀ n ∈ name :: names, keep n = true) →
        (t.entryAt? (root ++ name :: names)).isSome →
        (names = [] → t.entryAt? (root ++ [name]) = some .directory) → False := by
      intro name names hkept hsome hdir
      obtain ⟨hkeep, hentry⟩ := mem_entered_iff.mp (mem_entered_of_cons h hkept hsome hdir)
      refine hnone name (List.mem_filter.mpr ⟨?_, looksLikeDirectory_of_directory hentry⟩) hkeep
      exact mem_namesIn_iff.mpr ((isSome_entryAt?_iff (by simp)).mp (by rw [hentry]; rfl))
    constructor
    · intro names hkept hentry
      cases names with
      | nil => exact hpath
      | cons name names =>
        exact (habsurd name names hkept (by rw [hentry]; rfl) fun hnil => by rw [← hentry, hnil]).elim
    · intro names name hkept hlooks
      cases names with
      | nil =>
        have hsome := isSome_of_looksLikeDirectory hlooks
        rw [List.append_nil] at hsome hlooks
        refine absurd (hkept name (by simp)) (hnone name (List.mem_filter.mpr ⟨?_, hlooks⟩))
        exact mem_namesIn_iff.mpr ((isSome_entryAt?_iff (by simp)).mp hsome)
      | cons first names =>
        have hsome := isSome_of_looksLikeDirectory hlooks
        rw [List.append_assoc] at hsome
        exact (habsurd first (names ++ [name]) hkept hsome (by simp)).elim

/-- Otherwise a walk must be able to go on from each directory to be entered. -/
theorem walkable_succ_iff (h : t.WellFormed)
    (hpath : (Text.nameBytes path).length ≤ maxPathLength) :
    t.Walkable cwd keep (levels + 1) path root ↔
      ∀ name ∈ t.entered keep root,
        t.Walkable cwd keep levels (Path.join path name) (root ++ [name]) := by
  constructor
  · intro hwalk name hname
    have hkeep := (mem_entered_iff.mp hname).1
    constructor
    · intro names hkept hentry
      exact hwalk.short (name :: names) (List.forall_mem_cons.mpr ⟨hkeep, hkept⟩)
        (by rwa [List.append_cons])
    · intro names last hkept hlooks
      have hshallow := hwalk.shallow (name :: names) last (List.forall_mem_cons.mpr ⟨hkeep, hkept⟩)
        (by rwa [List.append_cons])
      exact Nat.lt_of_succ_lt_succ hshallow
  · intro hwalk
    constructor
    · intro names hkept hentry
      cases names with
      | nil => exact hpath
      | cons name names =>
        have hname := mem_entered_of_cons h hkept (by rw [hentry]; rfl) fun hnil => by
          rw [← hentry, hnil]
        exact (hwalk name hname).short names (List.forall_mem_cons.mp hkept).2
          (by rwa [← List.append_cons])
    · intro names last hkept hlooks
      cases names with
      | nil => exact Nat.succ_pos _
      | cons name names =>
        have hsome := isSome_of_looksLikeDirectory hlooks
        rw [List.append_assoc] at hsome
        have hname := mem_entered_of_cons h hkept hsome (by simp)
        exact Nat.succ_lt_succ ((hwalk name hname).shallow names last
          (List.forall_mem_cons.mp hkept).2 (by rwa [← List.append_cons]))

/-! ### What a walk comes to -/

theorem listed_eq_ok_iff :
    t.listed cwd path = .ok loc ↔ t.locate cwd true path = .ok loc ∧ t.entryAt? loc = some .directory := by
  rw [listed, bind_eq_ok_iff]
  constructor
  · rintro ⟨place, hopen, h⟩
    dsimp only at h
    split at h
    · exact absurd h throw_ne_ok
    · next hdir =>
      obtain rfl := pure_eq_ok_iff.mp h
      exact ⟨hopen, not_not.mp hdir⟩
  · rintro ⟨hopen, hdir⟩
    refine ⟨loc, hopen, ?_⟩
    dsimp only
    rw [if_neg (not_not.mpr hdir)]
    rfl

/-- What has been found in a directory, before anything below it. -/
def hereIn (t : FileTree) (cwd : Location) (path : String) (loc : Location) : Walk :=
  ⟨[⟨path, t.othersIn cwd path loc⟩], none⟩

theorem walk_zero (hlisted : t.listed cwd path = .ok root) :
    t.walk cwd keep strict 0 path = if ((t.directoriesIn cwd path root).filter keep).isEmpty
      then t.hereIn cwd path root else { t.hereIn cwd path root with stop := some .tooDeep } := by
  rw [walk, walkWith, hlisted]
  rfl

/-- Of the names that look like directories those of links are not descended into. -/
theorem filter_directoriesIn (t : FileTree) (cwd : Location) (path : String) :
    ((t.directoriesIn cwd path loc).filter keep).filter
      (fun name => t.entryAt? (loc ++ [name]) = some .directory) = t.entered keep loc := by
  rw [directoriesIn, List.filter_filter, List.filter_filter, entered]
  refine List.filter_congr fun name _ => ?_
  by_cases hdir : t.entryAt? (loc ++ [name]) = some .directory
  · rw [looksLikeDirectory_of_directory hdir]
    simp [hdir]
  · simp [hdir]

theorem walk_succ (hlisted : t.listed cwd path = .ok root) :
    t.walk cwd keep strict (levels + 1) path = (t.hereIn cwd path root).followedBy
      (.inTurn ((t.entered keep root).map fun name =>
        t.walk cwd keep strict levels (Path.join path name))) := by
  rw [walk, walkWith, hlisted, ← filter_directoriesIn t cwd path]
  rfl

theorem walk_of_unlisted {error : PathError} (hlisted : t.listed cwd path = .error error) :
    t.walk cwd keep strict levels path =
      ⟨[], if strict || error.isRefused then some (.onPath error path) else none⟩ := by
  cases levels <;> rw [walk, walkWith, hlisted]

/-- A directory to be entered is listed by its path, unless that is too long. -/
theorem listed_join (h : t.WellFormed) (hlisted : t.listed cwd path = .ok root)
    (hname : name ∈ t.entered keep root) :
    t.listed cwd (Path.join path name) =
      if maxPathLength < (Text.nameBytes (Path.join path name)).length then .error .nameTooLong
      else .ok (root ++ [name]) := by
  obtain ⟨hopen, hdir⟩ := listed_eq_ok_iff.mp hlisted
  have hentry := (mem_entered_iff.mp hname).2
  have hfile : IsFileName name := h.isFileName (by rw [hentry]; rfl) (by simp)
  have hjoin := locate_join_directory hopen hdir hfile hentry
  split at hjoin
  · next hlong =>
    rw [if_pos hlong, listed, hjoin]
    rfl
  · next hshort =>
    rw [if_neg hshort]
    exact listed_eq_ok_iff.mpr ⟨hjoin, hentry⟩

/-- The names on the way to the directories that a walk comes to, in its order. -/
def descent (t : FileTree) (keep : String → Bool) : Nat → Location → List (List String)
  | 0, _ => [[]]
  | levels + 1, loc =>
    [] :: (t.entered keep loc).flatMap fun name =>
      (descent t keep levels (loc ++ [name])).map (name :: ·)

/-- A walk that can go everywhere comes to all directories on the way and to its end. -/
theorem walk_eq (h : t.WellFormed) (hlisted : t.listed cwd path = .ok root)
    (hwalk : t.Walkable cwd keep levels path root) :
    t.walk cwd keep strict levels path =
      ⟨(t.descent keep levels root).map fun names =>
        ⟨pathBelow path names, t.othersIn cwd (pathBelow path names) (root ++ names)⟩, none⟩ := by
  obtain ⟨hopen, hdir⟩ := listed_eq_ok_iff.mp hlisted
  have hpath : (Text.nameBytes path).length ≤ maxPathLength := (locate_eq_ok_iff.mp hopen).2.2.1
  induction levels generalizing path root with
  | zero =>
    rw [walk_zero hlisted, (walkable_zero_iff h hpath).mp hwalk, descent]
    simp [hereIn, pathBelow]
  | succ levels ih =>
    have hwalks := (walkable_succ_iff h hpath).mp hwalk
    have heach : ∀ name ∈ t.entered keep root,
        t.walk cwd keep strict levels (Path.join path name) =
          ⟨(t.descent keep levels (root ++ [name])).map fun names =>
            ⟨pathBelow path (name :: names),
              t.othersIn cwd (pathBelow path (name :: names)) (root ++ name :: names)⟩, none⟩ := by
      intro name hname
      have hshort : (Text.nameBytes (Path.join path name)).length ≤ maxPathLength :=
        (hwalks name hname).short [] (by simp) (by simpa using (mem_entered_iff.mp hname).2)
      have hlisted' : t.listed cwd (Path.join path name) = .ok (root ++ [name]) := by
        rw [listed_join h hlisted hname, if_neg (not_lt.mpr hshort)]
      obtain ⟨hopen', hdir'⟩ := listed_eq_ok_iff.mp hlisted'
      rw [ih hlisted' (hwalks name hname) hopen' hdir' hshort]
      simp only [← List.append_cons]
      rfl
    have hstop : ∀ w ∈ (t.entered keep root).map fun name =>
        t.walk cwd keep strict levels (Path.join path name), w.stop = none := by
      intro w hw
      obtain ⟨name, hname, rfl⟩ := List.mem_map.mp hw
      rw [heach name hname]
    rw [walk_succ hlisted, Walk.followedBy_of_none rfl, Walk.visits_inTurn hstop,
      Walk.stop_inTurn_eq_none_iff.mpr hstop, descent, List.map_cons, List.map_flatMap, hereIn,
      List.append_nil, List.flatMap_map]
    refine congrArg (fun below => (⟨_ :: below, none⟩ : Walk)) (List.flatMap_congr fun name hname => ?_)
    rw [heach name hname, List.map_map]
    rfl

/-- **A strict walk comes to its end exactly when it can go everywhere.** -/
theorem stop_walk_eq_none_iff (h : t.WellFormed) (hlisted : t.listed cwd path = .ok root) :
    (t.walk cwd keep true levels path).stop = none ↔ t.Walkable cwd keep levels path root := by
  induction levels generalizing path root with
  | zero =>
    have hpath := (locate_eq_ok_iff.mp (listed_eq_ok_iff.mp hlisted).1).2.2.1
    rw [walk_zero hlisted, walkable_zero_iff h hpath, ← List.isEmpty_iff]
    cases ((t.directoriesIn cwd path root).filter keep).isEmpty <;> simp [hereIn]
  | succ levels ih =>
    have hpath := (locate_eq_ok_iff.mp (listed_eq_ok_iff.mp hlisted).1).2.2.1
    rw [walk_succ hlisted, Walk.followedBy_of_none rfl, Walk.stop_inTurn_eq_none_iff,
      List.forall_mem_map, walkable_succ_iff h hpath]
    refine forall₂_congr fun name hname => ?_
    have hlisted' := listed_join h hlisted hname
    split at hlisted'
    · next hlong =>
      rw [walk_of_unlisted hlisted']
      refine iff_of_false (by simp) fun hwalk => ?_
      have hshort := hwalk.short [] (by simp) (by simpa using (mem_entered_iff.mp hname).2)
      exact absurd hlong (not_lt.mpr hshort)
    · exact ih hlisted'

theorem mem_descent_iff (h : t.WellFormed) (hdir : t.entryAt? root = some .directory) :
    names ∈ t.descent keep levels root ↔ names.length ≤ levels ∧
      (∀ name ∈ names, keep name = true) ∧ t.entryAt? (root ++ names) = some .directory := by
  induction levels generalizing root names with
  | zero =>
    rw [descent, List.mem_singleton, Nat.le_zero, List.length_eq_zero_iff]
    refine ⟨?_, fun hnames => hnames.1⟩
    rintro rfl
    exact ⟨rfl, by simp, by simpa using hdir⟩
  | succ levels ih =>
    rw [descent, List.mem_cons]
    cases names with
    | nil => simpa using hdir
    | cons name names =>
      rw [or_iff_right (by simp), List.mem_flatMap, List.forall_mem_cons, List.length_cons,
        Nat.succ_le_succ_iff]
      constructor
      · rintro ⟨first, hfirst, hmem⟩
        obtain ⟨names', hnames, heq⟩ := List.mem_map.mp hmem
        obtain ⟨rfl, rfl⟩ := List.cons.inj heq
        obtain ⟨hkeep, hentry⟩ := mem_entered_iff.mp hfirst
        obtain ⟨hlength, hkept, hbelow⟩ := (ih hentry).mp hnames
        exact ⟨hlength, ⟨hkeep, hkept⟩, by rwa [List.append_cons]⟩
      · rintro ⟨hlength, hkept, hbelow⟩
        have hname := mem_entered_of_cons h (List.forall_mem_cons.mpr hkept)
          (by rw [hbelow]; rfl) fun hnil => by rw [← hbelow, hnil]
        refine ⟨name, hname, List.mem_map_of_mem ((ih (mem_entered_iff.mp hname).2).mpr ?_)⟩
        exact ⟨hlength, hkept.2, by rwa [← List.append_cons]⟩

theorem nodup_descent (h : t.WellFormed) (root : Location) : (t.descent keep levels root).Nodup := by
  induction levels generalizing root with
  | zero => exact List.nodup_singleton _
  | succ levels ih =>
    rw [descent, List.nodup_cons, List.nodup_flatMap]
    refine ⟨by simp, fun name _ => (ih _).map List.cons_injective, ?_⟩
    -- what is found under two names begins with different names
    refine ((nodup_namesIn h root).filter _).imp fun {a b} hne => List.disjoint_left.mpr ?_
    intro names ha hb
    obtain ⟨_, -, rfl⟩ := List.mem_map.mp ha
    obtain ⟨_, -, heq⟩ := List.mem_map.mp hb
    exact hne (List.cons.inj heq).1.symm

/-- The names in a directory that count. -/
def filesIn (t : FileTree) (loc : Location) : List String :=
  (t.namesIn loc).filter fun name => t.isCounted (loc ++ [name])

/-- The locations that a walk finds and that count. -/
def filesFound (t : FileTree) (keep : String → Bool) (levels : Nat) (root : Location) : List Location :=
  (t.descent keep levels root).flatMap fun way =>
    (t.filesIn (root ++ way)).map fun name => root ++ way ++ [name]

theorem mem_filesFound_iff (h : t.WellFormed) (hdir : t.entryAt? root = some .directory) :
    l ∈ t.filesFound keep levels root ↔ ∃ way name, l = root ++ way ++ [name] ∧ way.length ≤ levels ∧
      (∀ n ∈ way, keep n = true) ∧ t.isCounted l = true := by
  simp only [filesFound, List.mem_flatMap, List.mem_map, filesIn, List.mem_filter,
    mem_namesIn_iff]
  constructor
  · rintro ⟨way, hway, name, ⟨-, hcounted⟩, rfl⟩
    obtain ⟨hlength, hkept, -⟩ := (mem_descent_iff h hdir).mp hway
    exact ⟨way, name, rfl, hlength, hkept, hcounted⟩
  · rintro ⟨way, name, rfl, hlength, hkept, hcounted⟩
    have hparent := h.parent _ _ (isSome_of_isCounted hcounted)
    exact ⟨way, (mem_descent_iff h hdir).mpr ⟨hlength, hkept, hparent⟩, name,
      ⟨mem_locations_of_isCounted hcounted, hcounted⟩, rfl⟩

/-- A walk finds nothing twice. -/
theorem nodup_filesFound (h : t.WellFormed) (root : Location) :
    (t.filesFound keep levels root).Nodup := by
  rw [filesFound, List.nodup_flatMap]
  constructor
  · intro way _
    refine ((nodup_namesIn h _).filter _).map fun a b heq => ?_
    exact List.singleton_inj.mp (List.append_cancel_left heq)
  · refine (nodup_descent h root).imp fun {a b} hne => List.disjoint_left.mpr fun l ha hb => hne ?_
    obtain ⟨_, -, rfl⟩ := List.mem_map.mp ha
    obtain ⟨_, -, heq⟩ := List.mem_map.mp hb
    exact List.append_cancel_left (List.append_inj' heq rfl).1.symm

/-- Where a walk can go everywhere, nothing is too deep for it. -/
theorem Walkable.length_le (h : t.Walkable cwd keep levels path root)
    (hkept : ∀ name ∈ names, keep name = true) (hdir : t.entryAt? (root ++ names) = some .directory) :
    names.length ≤ levels := by
  cases names using List.reverseRecOn with
  | nil => exact Nat.zero_le _
  | append_singleton names name =>
    rw [List.length_append, List.length_singleton]
    refine h.shallow names name hkept (looksLikeDirectory_of_directory ?_)
    rwa [List.append_assoc]

/-- A walk that can go everywhere finds everything below its root that counts and has only kept names on
the way. -/
theorem filesFound_perm (h : t.WellFormed) (hdir : t.entryAt? root = some .directory)
    (hwalk : t.Walkable cwd keep levels path root) :
    (t.filesFound keep levels root).Perm (t.locations.filter fun l =>
      Location.isBelow root l && (l.drop root.length).dropLast.all keep && t.isCounted l) := by
  refine (List.perm_ext_iff_of_nodup (nodup_filesFound h root) (h.nodup.filter _)).mpr fun l => ?_
  rw [mem_filesFound_iff h hdir, List.mem_filter, Bool.and_eq_true, Bool.and_eq_true,
    Location.isBelow_iff, List.all_eq_true]
  constructor
  · rintro ⟨way, name, rfl, -, hkept, hcounted⟩
    refine ⟨mem_locations_of_isCounted hcounted, ⟨⟨⟨way ++ [name], by simp⟩, by simp⟩, ?_⟩, hcounted⟩
    rwa [List.append_assoc, List.drop_left, List.dropLast_concat]
  · rintro ⟨-, ⟨⟨⟨names, rfl⟩, hne⟩, hkept⟩, hcounted⟩
    cases names using List.reverseRecOn with
    | nil => simp at hne
    | append_singleton way name =>
      rw [List.drop_left, List.dropLast_concat] at hkept
      rw [← List.append_assoc] at hcounted ⊢
      have hparent := h.parent _ _ (isSome_of_isCounted hcounted)
      exact ⟨way, name, rfl, hwalk.length_le hkept hparent, hkept, hcounted⟩

/-- Where a walk can go everywhere, every directory to be entered is listed by its path. -/
theorem Walkable.listed (h : t.WellFormed) (hlisted : t.listed cwd path = .ok root)
    (hwalk : t.Walkable cwd keep levels path root) (hkept : ∀ name ∈ names, keep name = true)
    (hdir : t.entryAt? (root ++ names) = some .directory) :
    t.listed cwd (pathBelow path names) = .ok (root ++ names) := by
  induction names using List.reverseRecOn with
  | nil => rwa [List.append_nil]
  | append_singleton names name ih =>
    have hshort := hwalk.short _ hkept hdir
    rw [List.forall_mem_append, List.forall_mem_singleton] at hkept
    rw [← List.append_assoc] at hdir ⊢
    have hparent := h.parent _ _ (by rw [hdir]; rfl)
    have hentered : name ∈ t.entered keep (root ++ names) := mem_entered_iff.mpr ⟨hkept.2, hdir⟩
    rw [pathBelow, List.foldl_concat] at hshort ⊢
    rw [← pathBelow] at hshort ⊢
    rw [listed_join h (ih hkept.1 hparent) hentered, if_neg (not_lt.mpr hshort)]

/-- The paths of what a walk finds, with the locations that they name. -/
def itemsFound (t : FileTree) (cwd : Location) (keep : String → Bool) (levels : Nat) (path : String)
    (root : Location) : List (String × Location) :=
  (t.descent keep levels root).flatMap fun way =>
    (t.othersIn cwd (pathBelow path way) (root ++ way)).map fun name =>
      (Path.join (pathBelow path way) name, root ++ way ++ [name])

theorem paths_walk (h : t.WellFormed) (hlisted : t.listed cwd path = .ok root)
    (hwalk : t.Walkable cwd keep levels path root) :
    (t.walk cwd keep strict levels path).paths =
      (t.itemsFound cwd keep levels path root).map Prod.fst := by
  rw [walk_eq h hlisted hwalk, Walk.paths, itemsFound, List.flatMap_map, List.map_flatMap]
  refine List.flatMap_congr fun way _ => ?_
  rw [List.map_map]
  rfl

/-- What counts is part of what a walk finds. -/
theorem filesFound_eq (h : t.WellFormed) (hlisted : t.listed cwd path = .ok root)
    (hwalk : t.Walkable cwd keep levels path root) :
    t.filesFound keep levels root =
      ((t.itemsFound cwd keep levels path root).map Prod.snd).filter fun l => t.isCounted l := by
  rw [filesFound, itemsFound, List.map_flatMap, List.filter_flatMap]
  refine List.flatMap_congr fun way hway => ?_
  obtain ⟨-, hkept, hdir⟩ := (mem_descent_iff h (listed_eq_ok_iff.mp hlisted).2).mp hway
  have hopen := (listed_eq_ok_iff.mp (hwalk.listed h hlisted hkept hdir)).1
  rw [List.map_map, List.filter_map, othersIn, List.filter_filter]
  refine congrArg (List.map _) (List.filter_congr fun name _ => ?_)
  dsimp only [Function.comp_apply]
  cases hcounted : t.isCounted (root ++ way ++ [name]) with
  | false => simp
  | true =>
    rw [not_looksLikeDirectory_of_isCounted h hopen hdir hcounted]
    simp

/-- The links to directories that a walk comes to can be followed by their paths. -/
def ShowsLinks (t : FileTree) (cwd : Location) (keep : String → Bool) (path : String)
    (root : Location) : Prop :=
  ∀ names name target, (∀ n ∈ names, keep n = true) →
    t.entryAt? (root ++ names ++ [name]) = some (.link target) →
      t.isDirectoryAt (root ++ names ++ [name]) = true →
        t.leadsToDirectory cwd (Path.join (pathBelow path names) name) = true

/-- The sizes of all entries below a directory that are neither directories nor links to directories,
added up. -/
def occupied (t : FileTree) (loc : Location) : Nat :=
  ((t.locations.filter fun l => Location.isBelow loc l && t.isCounted l).map t.ownSize).sum

/-- The path of what a walk finds leads to it, unless it is too long. -/
theorem locate_of_mem_itemsFound (h : t.WellFormed) (hlisted : t.listed cwd path = .ok root)
    (hwalk : t.Walkable cwd keep levels path root) {item : String × Location}
    (hitem : item ∈ t.itemsFound cwd keep levels path root) :
    t.locate cwd false item.1 =
      if maxPathLength < (Text.nameBytes item.1).length then .error .nameTooLong else .ok item.2 := by
  obtain ⟨way, hway, hitem⟩ := List.mem_flatMap.mp hitem
  obtain ⟨name, hname, rfl⟩ := List.mem_map.mp hitem
  obtain ⟨-, hkept, hbelow⟩ := (mem_descent_iff h (listed_eq_ok_iff.mp hlisted).2).mp hway
  have hopen := (listed_eq_ok_iff.mp (hwalk.listed h hlisted hkept hbelow)).1
  have hsome : (t.entryAt? (root ++ way ++ [name])).isSome :=
    (isSome_entryAt?_iff (by simp)).mpr (mem_namesIn_iff.mp (List.mem_of_mem_filter hname))
  obtain ⟨e, hentry⟩ := Option.isSome_iff_exists.mp hsome
  exact locate_join_last hopen hbelow (h.isFileName hsome (by simp)) hentry

/-- What is added up for some paths are the sizes of the locations that they name. -/
theorem eq_sum_of_sizeOf {items : List (String × Location)} {size : Nat}
    (hitems : ∀ item ∈ items, ∀ place, t.locate cwd false item.1 = .ok place → place = item.2)
    (h : t.sizeOf cwd (items.map Prod.fst) = .ok size) :
    size = ((items.map Prod.snd).map t.ownSize).sum := by
  induction items generalizing size with
  | nil => exact (Except.ok.inj h).symm
  | cons item items ih =>
    rw [List.forall_mem_cons] at hitems
    rw [List.map_cons, sizeOf] at h
    split at h
    · cases h
    · next place hplace =>
      obtain rfl := hitems.1 place hplace
      cases hrest : t.sizeOf cwd (items.map Prod.fst) with
      | error stop =>
        rw [hrest] at h
        cases h
      | ok rest =>
        rw [hrest] at h
        rw [← Except.ok.inj h, ih hitems.2 hrest]
        rfl

/-- Sizes cannot be added up because one of the paths leads nowhere. -/
theorem exists_error_of_sizeOf {paths : List String} {stop : WalkStop}
    (h : t.sizeOf cwd paths = .error stop) :
    ∃ path ∈ paths, ∃ e, t.locate cwd false path = .error e ∧ stop = .onPath e path := by
  induction paths with
  | nil => cases h
  | cons path paths ih =>
    rw [sizeOf] at h
    split at h
    · next e hopen => exact ⟨path, List.mem_cons_self, e, hopen, (Except.error.inj h).symm⟩
    · cases hrest : t.sizeOf cwd paths with
      | ok rest =>
        rw [hrest] at h
        cases h
      | error stop' =>
        rw [hrest] at h
        obtain rfl := Except.error.inj h
        obtain ⟨path', hpath', herror⟩ := ih hrest
        exact ⟨path', List.mem_cons_of_mem _ hpath', herror⟩

/-- Where a walk can go everywhere, the sizes of what it finds are measured. -/
theorem measure_eq (h : t.WellFormed) (hlisted : t.listed cwd path = .ok root)
    (hwalk : t.Walkable cwd (fun _ => true) levels path root) :
    t.measure cwd levels path =
      t.sizeOf cwd ((t.itemsFound cwd (fun _ => true) levels path root).map Prod.fst) := by
  have hstop : (t.walk cwd (fun _ => true) false levels path).stop = none := by
    rw [walk_eq h hlisted hwalk]
  rw [measure, hstop, paths_walk h hlisted hwalk]
  cases t.sizeOf cwd ((t.itemsFound cwd (fun _ => true) levels path root).map Prod.fst) <;> rfl

/-- **What is measured is at least the sum of the sizes of all that counts below the directory**, where
a walk can go everywhere. -/
theorem occupied_le_of_measure {size : Nat} (h : t.WellFormed)
    (hlisted : t.listed cwd path = .ok root)
    (hwalk : t.Walkable cwd (fun _ => true) levels path root)
    (hsize : t.measure cwd levels path = .ok size) : t.occupied root ≤ size := by
  have hdir := (listed_eq_ok_iff.mp hlisted).2
  have hoccupied : t.occupied root =
      ((t.filesFound (fun _ => true) levels root).map t.ownSize).sum := by
    have hall : ∀ names : List String, names.all (fun _ => true) = true :=
      fun names => List.all_eq_true.mpr fun _ _ => rfl
    rw [occupied, ((filesFound_perm h hdir hwalk).map t.ownSize).sum_nat]
    simp only [hall, Bool.and_true]
  have hnames : ∀ item ∈ t.itemsFound cwd (fun _ => true) levels path root, ∀ place,
      t.locate cwd false item.1 = .ok place → place = item.2 := by
    intro item hitem place hplace
    rw [locate_of_mem_itemsFound h hlisted hwalk hitem] at hplace
    split at hplace
    · cases hplace
    · exact (Except.ok.inj hplace).symm
  rw [measure_eq h hlisted hwalk] at hsize
  rw [hoccupied, eq_sum_of_sizeOf hnames hsize, filesFound_eq h hlisted hwalk]
  exact (List.filter_sublist.map t.ownSize).sum_le_sum fun _ _ => Nat.zero_le _

/-- Where a walk can go everywhere, only a path that is too long keeps the size from being measured. -/
theorem exists_long_of_measure {stop : WalkStop} (h : t.WellFormed)
    (hlisted : t.listed cwd path = .ok root)
    (hwalk : t.Walkable cwd (fun _ => true) levels path root)
    (hstop : t.measure cwd levels path = .error stop) : ∃ p, stop = .onPath .nameTooLong p := by
  rw [measure_eq h hlisted hwalk] at hstop
  obtain ⟨p, hp, e, hopen, rfl⟩ := exists_error_of_sizeOf hstop
  obtain ⟨item, hitem, rfl⟩ := List.mem_map.mp hp
  rw [locate_of_mem_itemsFound h hlisted hwalk hitem] at hopen
  split at hopen
  · exact ⟨_, by rw [← Except.error.inj hopen]⟩
  · cases hopen

end FileTree

end RepoAudit
