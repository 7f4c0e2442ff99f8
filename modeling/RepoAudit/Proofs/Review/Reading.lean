import RepoAudit.Proofs.Files.Following
import RepoAudit.Review.Source

/-!
# What a review reads

A file is read for a review only when the place its path stands for lies strictly below the
repository. That place is worked out first, and then opened by its own path. The two agree when the
links on the path come to an end. When they lead round in a circle, the place worked out is only
what the path says once the circle is taken back by steps up, and opening it follows whatever links
stand there. The same happens when a path, as it is written, is too long to be looked at and the path
of the place is not: then a link on it is passed over and followed later.

* `placeWithin_eq_some_iff`, `textWithin_eq_some_iff` — what it takes to read a text;
* `exists_textsWithin_iff`, `lookup_textsWithin` — the texts of several files;
* `bytesUpTo_eq_ok_iff` — the limits with which the system can be asked;
* `Path.Spells` — a path that names a file without steps up and without links;
* `reads_below_unless_circular` — **what is read stands strictly below the repository, unless the
  path leads round in a circle or passes over a link only for being written too long; and every file
  below is read by each of its spellings**;
* `read_through_circle` — a circle through which a file outside the repository is read;
* `read_from_far_up` — the same file read from behind too many steps up.
-/

namespace RepoAudit

/-- A path that names the file at a location without steps up: from the root, or from a directory
above it. -/
def Path.Spells (path : String) (root loc : Location) : Prop :=
  Path.isAbsolute path = true ∧ Path.plainParts path = loc ∨
    Path.isAbsolute path = false ∧ root ++ Path.plainParts path = loc

namespace Review

open FileTree

variable {t : FileTree} {cwd root loc : Location} {memory : Nat} {limit : Int}
  {repo path text : String} {c : Content} {bs : List UInt8}

/-! ### The limit -/

/-- A limit with which the system can be asked for one byte more: it counts that far, and has the
memory. -/
def Askable (memory : Nat) (limit : Int) : Prop :=
  -2 ≤ limit ∧ limit + 1 ≤ maxLength - byteStringOverhead ∧ limit + 1 ≤ memory

instance (memory : Nat) (limit : Int) : Decidable (Askable memory limit) :=
  inferInstanceAs (Decidable (_ ∧ _ ∧ _))

/-- The bytes that come back when one byte more than a limit is asked for. -/
def bytesAsked (limit : Int) (c : Content) : List UInt8 :=
  if limit = -2 then c.toBytes else c.take (limit + 1).toNat

theorem bytesUpTo_of_askable (h : Askable memory limit) (c : Content) :
    bytesUpTo memory limit c = .ok (bytesAsked limit c) := by
  obtain ⟨hlow, hhigh, hmemory⟩ := h
  have hcounts : limit + 1 ≤ maxLength := by
    rw [byteStringOverhead] at hhigh
    omega
  rw [bytesUpTo, if_neg (by omega), if_neg (Int.not_lt.mpr hcounts), if_neg (Int.not_lt.mpr hhigh),
    if_neg (Int.not_lt.mpr hmemory), bytesAsked]
  split
  · next hall => rw [if_pos (by omega)]
  · next hpart => rw [if_neg (by omega)]

/-- A limit with which the system cannot be asked is refused for every file alike. -/
theorem exists_bytesUpTo_eq_error (h : ¬ Askable memory limit) :
    ∃ e, ∀ c, bytesUpTo memory limit c = .error e := by
  simp only [bytesUpTo]
  split
  · exact ⟨_, fun _ => rfl⟩
  split
  · exact ⟨_, fun _ => rfl⟩
  split
  · exact ⟨_, fun _ => rfl⟩
  split
  · exact ⟨_, fun _ => rfl⟩
  · next hlow _ hhigh hmemory =>
    exact absurd ⟨by omega, Int.not_lt.mp hhigh, Int.not_lt.mp hmemory⟩ h

theorem bytesUpTo_eq_ok_iff :
    bytesUpTo memory limit c = .ok bs ↔ Askable memory limit ∧ bs = bytesAsked limit c := by
  by_cases h : Askable memory limit
  · rw [bytesUpTo_of_askable h, Except.ok.injEq, and_iff_right h, eq_comm]
  · obtain ⟨e, he⟩ := exists_bytesUpTo_eq_error h
    rw [he]
    exact iff_of_false (by simp) fun hask => h hask.1

/-! ### Reading -/

/-- A place below the repository is found by resolving both paths. -/
theorem placeWithin_eq_some_iff : placeWithin t cwd repo path = .ok (some loc) ↔
    path ≠ "" ∧ ∃ root, t.resolve cwd repo = .ok root ∧
      t.resolve cwd (Path.fromDirectory repo path) = .ok loc ∧ Location.isBelow root loc = true := by
  rw [placeWithin]
  split
  · next hempty => simp [hempty]
  · next hpath =>
    simp only [bind_eq_ok_iff, mapError_eq_ok_iff, pure_eq_ok_iff]
    rw [and_iff_right hpath]
    refine exists_congr fun root => ?_
    constructor
    · rintro ⟨hroot, loc', hloc, h⟩
      split at h
      · next hbelow =>
        obtain rfl := Option.some.inj h
        exact ⟨hroot, hloc, hbelow⟩
      · cases h
    · rintro ⟨hroot, hloc, hbelow⟩
      exact ⟨hroot, loc, hloc, if_pos hbelow⟩

theorem textWithin_eq_some_iff : textWithin t cwd memory limit repo path = .ok (some text) ↔
    ∃ loc c, placeWithin t cwd repo path = .ok (some loc) ∧
      t.read [] (Location.toPath loc) = .ok c ∧ Askable memory limit ∧
      text = textUpTo limit (bytesAsked limit c) := by
  rw [textWithin, bind_eq_ok_iff]
  constructor
  · rintro ⟨place?, hplace, h⟩
    cases place? with
    | none => cases h
    | some loc =>
      simp only at h
      split at h
      · cases h
      · cases h
      · next c hread =>
        obtain ⟨bs, hbytes, htext⟩ := bind_eq_ok_iff.mp h
        obtain ⟨hlimit, rfl⟩ := bytesUpTo_eq_ok_iff.mp hbytes
        rw [pure_eq_ok_iff, Option.some.injEq] at htext
        exact ⟨loc, c, hplace, hread, hlimit, htext.symm⟩
  · rintro ⟨loc, c, hplace, hread, hlimit, rfl⟩
    refine ⟨some loc, hplace, ?_⟩
    simp only [hread]
    exact bind_eq_ok_iff.mpr ⟨_, bytesUpTo_of_askable hlimit c, rfl⟩

/-! ### Several files -/

theorem textsWithin_cons_eq_ok_iff {paths : List String} {texts : List (String × String)} :
    textsWithin t cwd memory limit repo (path :: paths) = .ok texts ↔
      ∃ text? rest, textWithin t cwd memory limit repo path = .ok text? ∧
        textsWithin t cwd memory limit repo paths = .ok rest ∧
        texts = text?.toList.map (path, ·) ++ rest := by
  simp only [textsWithin, bind_eq_ok_iff, pure_eq_ok_iff, exists_and_left]
  refine exists_congr fun text? => and_congr_right fun _ => exists_congr fun rest =>
    and_congr_right fun _ => ?_
  cases text? <;> simp [eq_comm]

/-- The text of a file is the one that was read. -/
theorem lookup_textsWithin_eq_some_iff {paths : List String} {texts : List (String × String)}
    (h : textsWithin t cwd memory limit repo paths = .ok texts) (path : String) :
    texts.lookup path = some text ↔
      path ∈ paths ∧ textWithin t cwd memory limit repo path = .ok (some text) := by
  induction paths generalizing texts with
  | nil =>
    cases h
    simp
  | cons first paths ih =>
    obtain ⟨text?, rest, hfirst, hrest, rfl⟩ := textsWithin_cons_eq_ok_iff.mp h
    rw [List.mem_cons]
    by_cases heq : path = first
    · subst heq
      cases text? with
      | some text => simp [hfirst, eq_comm]
      | none => simp [ih hrest, hfirst]
    · have hskip : (text?.toList.map (first, ·) ++ rest).lookup path = rest.lookup path := by
        cases text? with
        | none => rfl
        | some text =>
          have hbeq : (path == first) = false := by simpa using heq
          simp [List.lookup_cons, hbeq]
      rw [hskip, ih hrest]
      simp [heq]

/-- There are texts of those files that can be read. -/
theorem lookup_textsWithin {paths : List String} {texts : List (String × String)}
    (h : textsWithin t cwd memory limit repo paths = .ok texts) (path : String) :
    (texts.lookup path).isSome = true ↔
      path ∈ paths ∧ ∃ text, textWithin t cwd memory limit repo path = .ok (some text) := by
  rw [Option.isSome_iff_exists, ← exists_and_left]
  exact exists_congr fun text => lookup_textsWithin_eq_some_iff h path

/-! ### Spellings -/

/-- A spelling of a place in normal form stands for the place. -/
theorem standsFor_normalize {q : String} (h : t.IsPlace loc) (hne : loc ≠ [])
    (habsolute : Path.isAbsolute q = true) (hparts : Path.plainParts q = loc) :
    t.StandsFor cwd (Path.normalize q) loc := by
  have hstart : (Spot.here cwd).start (Path.normalize q) = ⟨none, []⟩ := by
    rw [Spot.start, if_pos (Path.isAbsolute_normalize habsolute)]
  have hnormal : Path.normalParts q = loc :=
    Path.normalParts_eq (fun name hname => (h.named name hname).1) hparts
  obtain ⟨slashes, hslashes, heq⟩ := Path.parts_normalize (hnormal ▸ hne)
  rw [StandsFor, hstart, heq, hnormal]
  exact ⟨_, _, (follows_names h).slashes hslashes, rfl⟩

theorem plainParts_toPath (h : loc.Named) : Path.plainParts (Location.toPath loc) = loc := by
  by_cases hne : loc = []
  · subst hne
    decide
  · rw [Path.plainParts, parts_toPath h hne, List.filter_cons_of_neg (by simp)]
    exact List.filter_eq_self.mpr fun name hname => by simpa using
      ⟨(h name hname).1.1, (h name hname).1.2.1⟩

theorem standsFor_of_spells (h : t.IsPlace loc) (hbelow : Location.isBelow root loc = true)
    (hpath : Path.Spells path root loc) :
    t.StandsFor cwd (Path.fromDirectory (Location.toPath root) path) loc := by
  rw [Location.isBelow, Bool.and_eq_true, List.isPrefixOf_iff_prefix, bne_iff_ne] at hbelow
  have hne : loc ≠ [] := by
    rintro rfl
    exact hbelow.2 (List.prefix_nil.mp hbelow.1)
  rw [Path.fromDirectory]
  rcases hpath with ⟨habsolute, hparts⟩ | ⟨hrelative, hparts⟩
  · rw [if_pos habsolute]
    exact standsFor_normalize h hne habsolute hparts
  · rw [if_neg (by simp [hrelative])]
    refine standsFor_normalize h hne (Path.isAbsolute_join (isAbsolute_toPath root) path) ?_
    rw [Path.plainParts_join _ hrelative, plainParts_toPath (h.above hbelow.1).named, hparts]

/-! ### The main statement -/

/-- **Reading stays below the repository unless a path is circular.** When the links on the path of
the repository and on the path of a file come to an end, none of them passed over only because a
relative path is written too long, a text that is read for the path is that of a file strictly below the
repository, name by name, with all links followed. And every file strictly below a resolved repository
that the system can read is read by its absolute path and by its path from the repository, written
without steps up and without links. -/
theorem reads_below_unless_circular (hcwd : t.IsPlace cwd) (memory : Nat) (limit : Int) :
    (∀ repo path text root loc, t.StandsFor cwd repo root →
      t.StandsFor cwd (Path.fromDirectory repo path) loc →
      textWithin t cwd memory limit repo path = .ok (some text) →
        Location.isBelow root loc = true ∧
          ∃ c, t.entryAt? loc = some (.file c) ∧ text = textUpTo limit (bytesAsked limit c)) ∧
      ∀ root loc path c, t.IsPlace loc → Location.isBelow root loc = true →
        t.read [] (Location.toPath loc) = .ok c → Path.Spells path root loc → Askable memory limit →
          textWithin t cwd memory limit (Location.toPath root) path =
            .ok (some (textUpTo limit (bytesAsked limit c))) := by
  constructor
  · intro repo path text root loc hroot hloc htext
    obtain ⟨loc', c, hplace, hread, -, rfl⟩ := textWithin_eq_some_iff.mp htext
    obtain ⟨-, root', hroot', hloc', hbelow⟩ := placeWithin_eq_some_iff.mp hplace
    -- resolving finds the ends of both paths
    rw [resolve_eq_ok hroot, Except.ok.injEq] at hroot'
    rw [resolve_eq_ok hloc, Except.ok.injEq] at hloc'
    subst hroot' hloc'
    exact ⟨hbelow, c, entryAt?_of_read (hloc.isPlace hcwd) hread, rfl⟩
  · intro root loc path c hloc hbelow hread hpath hlimit
    have hprefix : root <+: loc := by
      rw [Location.isBelow, Bool.and_eq_true, List.isPrefixOf_iff_prefix] at hbelow
      exact hbelow.1
    have hne : path ≠ "" := by
      rintro rfl
      rcases hpath with ⟨habsolute, -⟩ | ⟨-, hparts⟩
      · exact absurd habsolute (by decide)
      · have hnone : Path.plainParts "" = [] := by decide
        rw [hnone, List.append_nil] at hparts
        rw [hparts, Location.isBelow] at hbelow
        simp at hbelow
    have hplace : placeWithin t cwd (Location.toPath root) path = .ok (some loc) :=
      placeWithin_eq_some_iff.mpr ⟨hne, root,
        resolve_eq_ok (standsFor_toPath (hloc.above hprefix) cwd),
        resolve_eq_ok (standsFor_of_spells hloc hbelow hpath), hbelow⟩
    exact textWithin_eq_some_iff.mpr ⟨loc, c, hplace, hread, hlimit, rfl⟩

/-- A repository in which one directory is a link to another. -/
def linkedTree : FileTree := ⟨[(["repo"], .directory), (["repo", "src"], .directory),
  (["repo", "src", "db.py"], .file (.ofText "x\n")), (["repo", "lib"], .link "src")]⟩

theorem isPlace_linkedTree : linkedTree.IsPlace ["repo", "src", "db.py"] := by
  have hrepo : linkedTree.IsPlace ["repo"] :=
    (isPlace_nil _).concat (by decide) (by decide) (by decide) fun _ target => by
      simp [linkedTree, FileTree.entryAt?, find?]
  have hsrc : linkedTree.IsPlace ["repo", "src"] :=
    hrepo.concat (by decide) (by decide) (by decide) fun _ target => by
      simp [linkedTree, FileTree.entryAt?, find?]
  exact hsrc.concat (by decide) (by decide) (by decide) fun _ target => by
    simp [linkedTree, FileTree.entryAt?, find?]

theorem standsFor_linkedTree_repo : linkedTree.StandsFor [] "/repo" ["repo"] := by
  have hpath : Location.toPath ["repo"] = "/repo" := by decide
  exact hpath ▸ standsFor_toPath (isPlace_linkedTree.above (show ["repo"] <+: _ by decide)) []

/-- The path through the link stands for the file in the other directory. -/
theorem standsFor_linkedTree_file :
    linkedTree.StandsFor [] (Path.fromDirectory "/repo" "lib/db.py") ["repo", "src", "db.py"] := by
  have hlook : linkedTree.look [] (Spot.enter ⟨none, ["repo"]⟩ "lib") = some (.link "src") := by decide
  have htarget : Spot.start ⟨none, ["repo"]⟩ "src" = ⟨none, ["repo"]⟩ ∧
      Path.parts "src" ++ ["db.py"] = ["src", "db.py"] := by decide
  have hnames : linkedTree.Follows [] 2 ⟨none, ["repo"]⟩ ["src", "db.py"]
      ⟨none, ["repo", "src", "db.py"]⟩ :=
    follows_names (show linkedTree.IsPlace (["repo"] ++ ["src", "db.py"]) from isPlace_linkedTree)
  have hrest : linkedTree.Follows [] 3 ⟨none, ["repo"]⟩ ["lib", "db.py"]
      ⟨none, ["repo", "src", "db.py"]⟩ :=
    .link (by decide) (by decide) hlook (by rwa [htarget.1, htarget.2])
  have hrepo : linkedTree.look [] ⟨none, ["repo"]⟩ = some .directory := by decide
  have hroot : linkedTree.Follows [] 4 ⟨none, []⟩ ["repo", "lib", "db.py"]
      ⟨none, ["repo", "src", "db.py"]⟩ :=
    .enter (by decide) (by decide) (fun target => by simp [Spot.enter, hrepo])
      (fun _ target => by simp [linkedTree, FileTree.entryAt?, find?]) hrest
  have hparts : Path.parts (Path.fromDirectory "/repo" "lib/db.py") =
      ["", "repo", "lib", "db.py"] := by decide
  have hstart : (Spot.here []).start (Path.fromDirectory "/repo" "lib/db.py") = ⟨none, []⟩ := by decide
  rw [StandsFor, hparts, hstart]
  exact ⟨_, _, .stay (.inl rfl) hroot, rfl⟩

theorem textWithin_linkedTree :
    textWithin linkedTree [] 68719476736 51200 "/repo" "lib/db.py" = .ok (some "x\n") := by
  have hplace : placeWithin linkedTree [] "/repo" "lib/db.py" = .ok (some ["repo", "src", "db.py"]) :=
    placeWithin_eq_some_iff.mpr ⟨by decide, _, resolve_eq_ok standsFor_linkedTree_repo,
      resolve_eq_ok standsFor_linkedTree_file, by decide⟩
  have hpath : Location.toPath ["repo", "src", "db.py"] = "/repo/src/db.py" := by decide
  have hparts : Path.parts "/repo/src/db.py" = ["", "repo", "src", "db.py"] := by decide
  have habsolute : Path.isAbsolute "/repo/src/db.py" = true := by decide
  have hpassable : Path.IsPassable "/repo/src/db.py" := by decide
  have hlength : (Text.nameBytes "/repo/src/db.py").length = 15 ∧
      (Text.nameBytes "repo").length = 4 ∧ (Text.nameBytes "src").length = 3 ∧
      (Text.nameBytes "db.py").length = 5 := by decide
  have hlocate : linkedTree.locate [] true (Location.toPath ["repo", "src", "db.py"]) =
      .ok ["repo", "src", "db.py"] := by
    simp [hpath, locate, hpassable, hparts, habsolute, hlength, locateFrom, FileTree.entryAt?,
      linkedTree, find?, maxLinks, maxPathLength, maxNameLength]
  have hread : linkedTree.read [] (Location.toPath ["repo", "src", "db.py"]) = .ok (.ofText "x\n") :=
    read_eq_ok_iff.mpr ⟨_, hlocate, by decide⟩
  exact textWithin_eq_some_iff.mpr ⟨_, _, hplace, hread, by decide, by decide⟩

/-- A file is read through a link inside the repository. -/
theorem reads_below_unless_circular_linked :
    linkedTree.IsPlace [] ∧ linkedTree.StandsFor [] "/repo" ["repo"] ∧
      linkedTree.StandsFor [] (Path.fromDirectory "/repo" "lib/db.py") ["repo", "src", "db.py"] ∧
      textWithin linkedTree [] 68719476736 51200 "/repo" "lib/db.py" = .ok (some "x\n") ∧
      Location.isBelow ["repo"] ["repo", "src", "db.py"] = true ∧
      ∃ c, linkedTree.entryAt? ["repo", "src", "db.py"] = some (.file c) ∧
        "x\n" = textUpTo 51200 (bytesAsked 51200 c) :=
  ⟨isPlace_nil _, standsFor_linkedTree_repo, standsFor_linkedTree_file, textWithin_linkedTree,
    (reads_below_unless_circular (isPlace_nil linkedTree) 68719476736 51200).1 _ _ _ _ _
      standsFor_linkedTree_repo standsFor_linkedTree_file textWithin_linkedTree⟩

/-- A repository with a circle, a link out of it, and a link that passes through the circle and back
to that link; there is no file in it. -/
def circularTree : FileTree := ⟨[(["secret"], .file (.ofText "top")), (["repo"], .directory),
  (["repo", "loop"], .link "loop"), (["repo", "leak"], .link "../secret"),
  (["repo", "key"], .link "loop/../leak")]⟩

/-- What is written after the circle leads back to the link out of the repository. -/
theorem resolve_circularTree : circularTree.resolve [] "/repo/key" = .ok ["repo", "leak"] := by
  have hpassable : Path.IsPassable "repo" ∧ Path.IsPassable "key" ∧ Path.IsPassable "loop" := by decide
  have hparts : Path.parts "/repo/key" = ["", "repo", "key"] ∧
      Path.parts "loop/../leak" = ["loop", "..", "leak"] ∧ Path.parts "loop" = ["loop"] := by
    decide
  have habsolute : Path.isAbsolute "/repo/key" = true ∧
      Path.isAbsolute "loop/../leak" = false ∧ Path.isAbsolute "loop" = false := by
    decide
  have hlooks : circularTree.look [] ⟨none, ["repo"]⟩ = some .directory ∧
      circularTree.look [] ⟨none, ["repo", "key"]⟩ = some (.link "loop/../leak") ∧
      circularTree.look [] ⟨none, ["repo", "loop"]⟩ = some (.link "loop") := by
    decide
  have hlinks : circularTree.entries.length * maxSpellings = 20490 := by decide
  have hwritten : writtenRest (Location.toPath ["repo", "loop"])
      [⟨[], some ⟨none, ["repo", "loop"]⟩⟩, ⟨["..", "leak"], some ⟨none, ["repo", "key"]⟩⟩,
        ⟨[], none⟩] = ["repo", "leak"] := by
    decide
  simp [resolve, hpassable, hparts, habsolute, hlooks, hlinks, resolveFrom, Spot.start, Spot.enter,
    SeenLinks.get?, hwritten]

theorem read_circularTree :
    circularTree.read [] (Location.toPath ["repo", "leak"]) = .ok (.ofText "top") := by
  have hpath : Location.toPath ["repo", "leak"] = "/repo/leak" := by decide
  have hparts : Path.parts "/repo/leak" = ["", "repo", "leak"] ∧
      Path.parts "../secret" = ["..", "secret"] := by decide
  have habsolute : Path.isAbsolute "/repo/leak" = true ∧
      Path.isAbsolute "../secret" = false := by decide
  have hpassable : Path.IsPassable "/repo/leak" := by decide
  have hlength : (Text.nameBytes "/repo/leak").length = 10 ∧ (Text.nameBytes "repo").length = 4 ∧
      (Text.nameBytes "leak").length = 4 ∧ (Text.nameBytes "secret").length = 6 := by decide
  have hlocate : circularTree.locate [] true "/repo/leak" = .ok ["secret"] := by
    simp [locate, hpassable, hparts, habsolute, hlength, locateFrom, FileTree.entryAt?, circularTree,
      find?, maxLinks, maxPathLength, maxNameLength]
  exact read_eq_ok_iff.mpr ⟨_, hpath.symm ▸ hlocate, by decide⟩

theorem isBelow_eq_false_of_circularTree (h : circularTree.entryAt? loc = some (.file c)) :
    Location.isBelow ["repo"] loc = false := by
  have hne : loc ≠ [] := by
    rintro rfl
    cases h
  have hmem := mem_entries_of_entryAt? h hne
  simp only [circularTree, List.mem_cons, Prod.mk.injEq, List.not_mem_nil, or_false,
    reduceCtorEq, and_false] at hmem
  rw [hmem.1]
  decide

/-- Where the link out of the repository is taken for a place, the file outside is read. -/
theorem textWithin_circularTree {repo path : String} (hpath : path ≠ "")
    (hrepo : circularTree.resolve [] repo = .ok ["repo"])
    (hplace : circularTree.resolve [] (Path.fromDirectory repo path) = .ok ["repo", "leak"]) :
    textWithin circularTree [] 68719476736 51200 repo path = .ok (some "top") :=
  textWithin_eq_some_iff.mpr ⟨_, _,
    placeWithin_eq_some_iff.mpr ⟨hpath, _, hrepo, hplace, by decide⟩,
    read_circularTree, by decide, by decide +kernel⟩

/-- Through the circle the file outside is read. -/
theorem read_through_circle :
    textWithin circularTree [] 68719476736 51200 "/repo" "key" = .ok (some "top") ∧
      (∀ loc c, circularTree.entryAt? loc = some (.file c) → Location.isBelow ["repo"] loc = false) ∧
      ¬ ∀ t cwd memory limit repo path text root, IsPlace t cwd → t.StandsFor cwd repo root →
        textWithin t cwd memory limit repo path = .ok (some text) →
          ∃ loc c, Location.isBelow root loc = true ∧ t.entryAt? loc = some (.file c) ∧
            text = textUpTo limit (bytesAsked limit c) := by
  have hrepoPath : Location.toPath ["repo"] = "/repo" := by decide +kernel
  have hrepo : circularTree.IsPlace ["repo"] :=
    (isPlace_nil _).concat (by decide) (by decide) (by decide) fun _ target => by
      simp [circularTree, FileTree.entryAt?, find?]
  have hroot : circularTree.StandsFor [] "/repo" ["repo"] := hrepoPath ▸ standsFor_toPath hrepo []
  have hpath : Path.fromDirectory "/repo" "key" = "/repo/key" := by decide +kernel
  have htext : textWithin circularTree [] 68719476736 51200 "/repo" "key" = .ok (some "top") :=
    textWithin_circularTree (by decide) (resolve_eq_ok hroot) (hpath.symm ▸ resolve_circularTree)
  refine ⟨htext, fun loc c => isBelow_eq_false_of_circularTree, fun hall => ?_⟩
  obtain ⟨loc, c, hbelow, hentry, -⟩ :=
    hall _ _ _ _ _ _ _ _ (isPlace_nil circularTree) hroot htext
  rw [isBelow_eq_false_of_circularTree hentry] at hbelow
  cases hbelow

/-- **From behind too many steps up the file outside is read without any circle**, since the link to it
is not followed while its place is worked out. -/
theorem read_from_far_up {n : Nat} (hfar : maxPathLength + 2 ≤ n) :
    textWithin circularTree [] 68719476736 51200 (Path.ofParts (List.replicate n ".." ++ ["repo"]))
      "leak" = .ok (some "top") := by
  have hrepoNamed : Location.Named ["repo"] := by decide
  have hleakNamed : Location.Named ["repo", "leak"] := by decide
  have hrepo := resolve_of_far_up circularTree [] hfar hrepoNamed
  have hleak := resolve_of_far_up circularTree [] hfar hleakNamed
  rw [List.take_nil, List.nil_append] at hrepo hleak
  have hslash := hleakNamed.slash_not_mem n
  have hpath : Path.fromDirectory (Path.ofParts (List.replicate n ".." ++ ["repo"])) "leak" =
      Path.ofParts (List.replicate n ".." ++ ["repo", "leak"]) := by
    have hrelative : Path.isAbsolute "leak" = false := by decide
    rw [Path.fromDirectory, hrelative, if_neg Bool.false_ne_true,
      Path.join_ofParts (by simp) (hrepoNamed.slash_not_mem n)
        (hrepoNamed.goesUpThenDown n).empty_not_mem (by decide), List.append_assoc]
    exact Path.normalize_ofParts (by simp) hslash (hleakNamed.goesUpThenDown n)
  exact textWithin_circularTree (by decide) hrepo (hpath.symm ▸ hleak)

end Review

end RepoAudit
