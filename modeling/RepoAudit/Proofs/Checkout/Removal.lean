import RepoAudit.Checkout
import RepoAudit.Proofs.Files.Changes
import RepoAudit.Proofs.Files.Following

/-!
# What a removal removes

A directory is removed only when the place its path stands for lies strictly below the work root.
That place is worked out first and then opened by its own path, link by link. The two agree when the
links on the path come to an end; when they lead round in a circle, or a path is written too long for
its links to be looked at, what is opened may lie anywhere.

* `Checkout.afterDiscard` — the files after a request to remove a directory;
* `FileTree.removeTree_cases` — what becomes of a tree whose path no link stands on;
* `Checkout.discard_stays_below_unless_circular` — **whatever a removal changes lies at or below the
  place that was asked for, which lies strictly below the work root**, unless a path is circular or
  passes over a link only for being written too long;
* `Checkout.discard_through_circle` — a circle through which a directory outside is removed;
* `Checkout.discard_from_far_up` — the same directory removed from behind too many steps up.
-/

namespace RepoAudit

namespace FileTree

variable {t : FileTree} {loc : Location}

/-- A directory that can be opened by its path is removed. -/
theorem removeTree_eq_ok (hentry : t.entryAt? loc = some .directory)
    (hopen : t.locate [] false (Location.toPath loc) = .ok loc) :
    t.removeTree loc = .ok (t.removeBelow loc) := by
  rw [removeTree, hopen]
  simp [Except.mapError, ok_bind, hentry]
  rfl

/-- No link stands on the way to a place, so that removing it removes what is there and below, if it
is a directory, and nothing else. -/
theorem removeTree_cases (h : t.IsPlace loc) :
    t.removeTree loc = .ok (t.removeBelow loc) ∧ t.entryAt? loc = some .directory ∨
      ∃ e, t.removeTree loc = .error (.system e) := by
  cases hopen : t.locate [] false (Location.toPath loc) with
  | error e => exact .inr ⟨e, by rw [removeTree, hopen]; rfl⟩
  | ok place =>
    obtain rfl : place = loc := eq_of_locate_toPath h hopen
    cases hentry : t.entryAt? place with
    | none => exact .inr ⟨.missing, by simp [removeTree, hopen, Except.mapError, ok_bind, hentry]⟩
    | some entry =>
      cases entry with
      | directory => exact .inl ⟨removeTree_eq_ok hentry hopen, rfl⟩
      | file c =>
        exact .inr ⟨.notDirectory, by simp [removeTree, hopen, Except.mapError, ok_bind, hentry]⟩
      | link target =>
        exact absurd hentry (h.linkFree place List.prefix_rfl (fits_of_locate hopen) target)

end FileTree

namespace Checkout

open FileTree

variable {t t' : FileTree} {cwd rootLoc loc : Location} {root path : String}

/-- The files after a request to remove a directory. A request that fails changes nothing. -/
def afterDiscard (root : String) (t : FileTree) (cwd : Location) (path : String) : FileTree :=
  (discard root t cwd path).toOption.getD t

/-- A request is refused because of its path. -/
def Refused (result : Except CheckoutStop FileTree) : Prop :=
  ∃ e, result = .error (.fault e) ∧ e.fault = .path

/-- What may be removed, when the paths can be followed to their ends. -/
theorem discardable_eq (hroot : t.StandsFor cwd root rootLoc) (hpath : t.StandsFor cwd path loc) :
    discardable root t cwd path =
      if path = "" then .error (.fault (.because .path "empty path"))
      else if Location.isBelow rootLoc loc then .ok loc
      else .error (.fault (.because .path "path is not within temp directory")) := by
  rw [discardable, resolve_eq_ok hroot, resolve_eq_ok hpath]
  rfl

/-- A removal that is granted removes the place, or finds nothing there. -/
theorem discard_eq_ok (hcwd : t.IsPlace cwd) (hroot : t.StandsFor cwd root rootLoc)
    (hpath : t.StandsFor cwd path loc) (h : discard root t cwd path = .ok t') :
    path ≠ "" ∧ Location.isBelow rootLoc loc = true ∧ (t' = t.removeBelow loc ∨ t' = t) := by
  obtain ⟨loc', hdiscardable, hrest⟩ := bind_eq_ok_iff.mp h
  rw [discardable_eq hroot hpath] at hdiscardable
  split at hdiscardable
  · cases hdiscardable
  next hne =>
  split at hdiscardable
  · next hbelow =>
    obtain rfl : loc = loc' := Except.ok.inj hdiscardable
    refine ⟨hne, hbelow, ?_⟩
    rcases removeTree_cases (hpath.isPlace hcwd) with ⟨hremoved, -⟩ | ⟨e, hfailed⟩
    · rw [hremoved] at hrest
      exact .inl (pure_eq_ok_iff.mp hrest).symm
    · rw [hfailed] at hrest
      cases e with
      | missing => exact .inr (pure_eq_ok_iff.mp hrest).symm
      | _ => exact absurd hrest throw_ne_ok
  · cases hdiscardable

/-- A removal that fails at the system is not refused because of its path. -/
theorem refused_iff (hroot : t.StandsFor cwd root rootLoc) (hpath : t.StandsFor cwd path loc) :
    Refused (discard root t cwd path) ↔ path = "" ∨ Location.isBelow rootLoc loc = false := by
  rw [Refused, discard, discardable_eq hroot hpath]
  by_cases hempty : path = ""
  · rw [if_pos hempty]
    exact iff_of_true ⟨_, rfl, rfl⟩ (.inl hempty)
  rw [if_neg hempty]
  cases hbelow : Location.isBelow rootLoc loc with
  | false => exact iff_of_true ⟨_, rfl, rfl⟩ (.inr rfl)
  | true =>
    refine iff_of_false ?_ (by simp [hempty])
    rintro ⟨e, herror, hfault⟩
    rw [if_pos rfl, ok_bind] at herror
    cases hremove : t.removeTree loc with
    | ok t' =>
      rw [hremove] at herror
      exact absurd herror pure_ne_error
    | error reason =>
      rw [hremove] at herror
      cases reason with
      | link =>
        obtain rfl := CheckoutStop.fault.inj (throw_eq_error_iff.mp herror)
        exact absurd hfault (by decide)
      | system fault =>
        cases fault with
        | missing => exact absurd herror pure_ne_error
        | refused r => exact absurd (throw_eq_error_iff.mp herror) (by simp)
        | _ =>
          obtain rfl := CheckoutStop.fault.inj (throw_eq_error_iff.mp herror)
          exact absurd hfault (by decide)

theorem afterDiscard_of_error {stop : CheckoutStop} (h : discard root t cwd path = .error stop) :
    afterDiscard root t cwd path = t := by
  rw [afterDiscard, h]
  rfl

/-- **A removal changes nothing that is not at or below the place its path stands for, and that place
lies strictly below the work root**, when the links on both paths come to an end and none is passed
over only because a relative path is written too long. It is refused because of its path exactly when
the path is empty or its place does not lie there, and then changes nothing. A directory below the work
root that the system can open is removed with everything in it. -/
theorem discard_stays_below_unless_circular (hcwd : t.IsPlace cwd)
    (hroot : t.StandsFor cwd root rootLoc) (hpath : t.StandsFor cwd path loc) :
    (∀ l, FileTree.entryAt? (afterDiscard root t cwd path) l ≠ t.entryAt? l →
      Location.isBelow rootLoc loc = true ∧ loc <+: l) ∧
    (Refused (discard root t cwd path) ↔ path = "" ∨ Location.isBelow rootLoc loc = false) ∧
    (Refused (discard root t cwd path) → afterDiscard root t cwd path = t) ∧
    (path ≠ "" → Location.isBelow rootLoc loc = true → t.entryAt? loc = some .directory →
      t.locate [] false (Location.toPath loc) = .ok loc →
        discard root t cwd path = .ok (t.removeBelow loc)) := by
  refine ⟨fun l hchanged => ?_, refused_iff hroot hpath, ?_, fun hne hbelow hentry hopen => ?_⟩
  · cases hresult : discard root t cwd path with
    | error stop => exact absurd (by rw [afterDiscard_of_error hresult]) hchanged
    | ok t' =>
      obtain ⟨-, hbelow, hafter⟩ := discard_eq_ok hcwd hroot hpath hresult
      have hsame : afterDiscard root t cwd path = t' := by
        rw [afterDiscard, hresult]
        rfl
      rw [hsame] at hchanged
      refine ⟨hbelow, ?_⟩
      rcases hafter with rfl | rfl
      · by_contra hnot
        exact hchanged (entryAt?_removeBelow_other t hnot)
      · exact absurd rfl hchanged
  · rintro ⟨e, herror, -⟩
    exact afterDiscard_of_error herror
  · rw [discard, discardable_eq hroot hpath, if_neg hne, if_pos hbelow, ok_bind,
      removeTree_eq_ok hentry hopen]
    rfl

/-- A work root with a directory, in which a link leads to a file outside, and a link to that
directory. -/
def workTree : FileTree := ⟨[(["clones"], .directory), (["clones", "x"], .directory),
  (["clones", "x", "key"], .link "../../secret"), (["clones", "new"], .link "x"),
  (["secret"], .file (.ofText "top"))]⟩

theorem isPlace_workTree : workTree.IsPlace ["clones", "x"] := by
  have hroot : workTree.IsPlace ["clones"] :=
    (isPlace_nil _).concat (by decide) (by decide) (by decide) fun _ target => by
      simp [workTree, FileTree.entryAt?, find?]
  exact hroot.concat (by decide) (by decide) (by decide) fun _ target => by
    simp [workTree, FileTree.entryAt?, find?]

theorem look_workTree_root : workTree.look [] ⟨none, ["clones"]⟩ = some .directory := by decide

theorem standsFor_workTree_root : workTree.StandsFor [] "/clones" ["clones"] := by
  have hpath : Location.toPath ["clones"] = "/clones" := by decide
  exact hpath ▸ standsFor_toPath (isPlace_workTree.above (show ["clones"] <+: _ by decide)) []

/-- The path of the link stands for the directory. -/
theorem standsFor_workTree_new : workTree.StandsFor [] "/clones/new" ["clones", "x"] := by
  have hlook : workTree.look [] (Spot.enter ⟨none, ["clones"]⟩ "new") = some (.link "x") := by decide
  have htarget : Spot.start ⟨none, ["clones"]⟩ "x" = ⟨none, ["clones"]⟩ ∧
      Path.parts "x" ++ [] = ["x"] := by decide
  have hnames : workTree.Follows [] 1 ⟨none, ["clones"]⟩ ["x"] ⟨none, ["clones", "x"]⟩ :=
    follows_names (show workTree.IsPlace (["clones"] ++ ["x"]) from isPlace_workTree)
  have hlast : workTree.Follows [] 2 ⟨none, ["clones"]⟩ ["new"] ⟨none, ["clones", "x"]⟩ :=
    .link (by decide) (by decide) hlook (by rwa [htarget.1, htarget.2])
  have hroot : workTree.Follows [] 3 ⟨none, []⟩ ["clones", "new"] ⟨none, ["clones", "x"]⟩ :=
    .enter (by decide) (by decide) (fun target => by simp [Spot.enter, look_workTree_root])
      (fun _ target => by simp [workTree, FileTree.entryAt?, find?]) hlast
  have hparts : Path.parts "/clones/new" = ["", "clones", "new"] := by decide
  have hstart : (Spot.here []).start "/clones/new" = ⟨none, []⟩ := by decide
  rw [StandsFor, hparts, hstart]
  exact ⟨_, _, .stay (.inl rfl) hroot, rfl⟩

theorem locate_workTree :
    workTree.locate [] false (Location.toPath ["clones", "x"]) = .ok ["clones", "x"] := by
  have hpath : Location.toPath ["clones", "x"] = "/clones/x" := by decide
  have hparts : Path.parts "/clones/x" = ["", "clones", "x"] := by decide
  have habsolute : Path.isAbsolute "/clones/x" = true := by decide
  have hlength : (Text.nameBytes "/clones/x").length = 9 ∧
      (Text.nameBytes "clones").length = 6 ∧ (Text.nameBytes "x").length = 1 := by
    decide
  have hpassable : Path.IsPassable "/clones/x" := by decide
  simp [hpath, locate, hpassable, hparts, habsolute, hlength, locateFrom, FileTree.entryAt?, workTree,
    find?, maxLinks, maxPathLength, maxNameLength]

/-- The directory is removed through the link to it, and the file that a link in it leads to
stays. -/
theorem discard_stays_below_unless_circular_linked :
    discard "/clones" workTree [] "/clones/new" = .ok (workTree.removeBelow ["clones", "x"]) ∧
      FileTree.entryAt? (afterDiscard "/clones" workTree [] "/clones/new") ["secret"] =
        workTree.entryAt? ["secret"] := by
  obtain ⟨hframe, -, -, hremoved⟩ := discard_stays_below_unless_circular (isPlace_nil workTree)
    standsFor_workTree_root standsFor_workTree_new
  refine ⟨hremoved (by decide) (by decide) (by decide) locate_workTree, ?_⟩
  by_contra hchanged
  exact absurd (hframe _ hchanged).2 (by decide)

/-! ### Circles -/

/-- A work root with a circle, a link out of it, and a link that passes through the circle and back
to that link. -/
def circularWorkTree : FileTree := ⟨[(["clones"], .directory), (["clones", "loop"], .link "loop"),
  (["clones", "leak"], .link "../outside"), (["clones", "key"], .link "loop/../leak/sub"),
  (["outside"], .directory), (["outside", "sub"], .directory),
  (["outside", "sub", "f"], .file (.ofText "x"))]⟩

theorem standsFor_circularWorkTree : circularWorkTree.StandsFor [] "/clones" ["clones"] := by
  have hroot : circularWorkTree.IsPlace ["clones"] :=
    (isPlace_nil _).concat (by decide) (by decide) (by decide) fun _ target => by
      simp [circularWorkTree, FileTree.entryAt?, find?]
  have hpath : Location.toPath ["clones"] = "/clones" := by decide
  exact hpath ▸ standsFor_toPath hroot []

/-- What is written after the circle leads back to the link out of the work root. -/
theorem resolve_circularWorkTree :
    circularWorkTree.resolve [] "/clones/key" = .ok ["clones", "leak", "sub"] := by
  have hparts : Path.parts "/clones/key" = ["", "clones", "key"] ∧
      Path.parts "loop/../leak/sub" = ["loop", "..", "leak", "sub"] ∧
      Path.parts "loop" = ["loop"] := by
    decide
  have habsolute : Path.isAbsolute "/clones/key" = true ∧
      Path.isAbsolute "loop/../leak/sub" = false ∧ Path.isAbsolute "loop" = false := by
    decide
  have hlooks : circularWorkTree.look [] ⟨none, ["clones"]⟩ = some .directory ∧
      circularWorkTree.look [] ⟨none, ["clones", "key"]⟩ = some (.link "loop/../leak/sub") ∧
      circularWorkTree.look [] ⟨none, ["clones", "loop"]⟩ = some (.link "loop") := by
    decide
  have hlinks : circularWorkTree.entries.length * maxSpellings = 28686 := by decide
  have hwritten : writtenRest (Location.toPath ["clones", "loop"])
      [⟨[], some ⟨none, ["clones", "loop"]⟩⟩,
        ⟨["..", "leak", "sub"], some ⟨none, ["clones", "key"]⟩⟩, ⟨[], none⟩] =
        ["clones", "leak", "sub"] := by
    decide
  have hpassable : Path.IsPassable "clones" ∧ Path.IsPassable "key" ∧ Path.IsPassable "loop" := by
    decide
  simp [resolve, hparts, habsolute, hpassable, hlooks, hlinks, resolveFrom, Spot.start, Spot.enter,
    SeenLinks.get?, hwritten]

theorem locate_circularWorkTree :
    circularWorkTree.locate [] false (Location.toPath ["clones", "leak", "sub"]) =
      .ok ["outside", "sub"] := by
  have hpath : Location.toPath ["clones", "leak", "sub"] = "/clones/leak/sub" := by decide
  have hparts : Path.parts "/clones/leak/sub" = ["", "clones", "leak", "sub"] ∧
      Path.parts "../outside" = ["..", "outside"] := by decide
  have habsolute : Path.isAbsolute "/clones/leak/sub" = true ∧
      Path.isAbsolute "../outside" = false := by decide
  have hlength : (Text.nameBytes "/clones/leak/sub").length = 16 ∧
      (Text.nameBytes "clones").length = 6 ∧ (Text.nameBytes "leak").length = 4 ∧
      (Text.nameBytes "outside").length = 7 ∧ (Text.nameBytes "sub").length = 3 := by
    decide
  have hpassable : Path.IsPassable "/clones/leak/sub" := by decide
  simp [hpath, locate, hpassable, hparts, habsolute, hlength, locateFrom, FileTree.entryAt?,
    circularWorkTree, find?, maxLinks, maxPathLength, maxNameLength]

/-- Where what is behind the link is taken for a place, the directory outside is removed. -/
theorem discard_circularWorkTree {path : String} (hpath : path ≠ "")
    (hplace : circularWorkTree.resolve [] path = .ok ["clones", "leak", "sub"]) :
    discard "/clones" circularWorkTree [] path =
      .ok (circularWorkTree.removeBelow ["outside", "sub"]) := by
  have hdiscardable : discardable "/clones" circularWorkTree [] path =
      .ok ["clones", "leak", "sub"] := by
    rw [discardable, if_neg hpath, hplace, resolve_eq_ok standsFor_circularWorkTree]
    rfl
  have hremove : circularWorkTree.removeTree ["clones", "leak", "sub"] =
      .ok (circularWorkTree.removeBelow ["outside", "sub"]) := by
    rw [removeTree, locate_circularWorkTree]
    rfl
  rw [discard, hdiscardable, ok_bind, hremove]
  rfl

/-- Through the circle a directory outside the work root is removed. -/
theorem discard_through_circle :
    FileTree.entryAt? (afterDiscard "/clones" circularWorkTree [] "/clones/key")
        ["outside", "sub", "f"] = none ∧
      ¬ ∀ t cwd root path rootLoc l, IsPlace t cwd → t.StandsFor cwd root rootLoc →
        FileTree.entryAt? (afterDiscard root t cwd path) l ≠ t.entryAt? l →
          Location.isBelow rootLoc l = true := by
  have hgone : FileTree.entryAt? (afterDiscard "/clones" circularWorkTree [] "/clones/key")
      ["outside", "sub", "f"] = none := by
    rw [afterDiscard, discard_circularWorkTree (by decide) resolve_circularWorkTree]
    exact entryAt?_removeBelow _ (by decide) (by decide)
  refine ⟨hgone, fun hall => ?_⟩
  have hbelow := hall circularWorkTree [] "/clones" "/clones/key" ["clones"] ["outside", "sub", "f"]
    (isPlace_nil _) standsFor_circularWorkTree (by rw [hgone]; decide)
  exact absurd hbelow (by decide)

/-- **From behind too many steps up the directory outside is removed without any circle**, since the
link to it is not followed while the place is worked out. -/
theorem discard_from_far_up {n : Nat} (hfar : maxPathLength + 2 ≤ n) :
    discard "/clones" circularWorkTree []
        (Path.ofParts (List.replicate n ".." ++ ["clones", "leak", "sub"])) =
      .ok (circularWorkTree.removeBelow ["outside", "sub"]) := by
  have hnamed : Location.Named ["clones", "leak", "sub"] := by decide
  have hplace := resolve_of_far_up circularWorkTree [] hfar hnamed
  rw [List.take_nil, List.nil_append] at hplace
  exact discard_circularWorkTree (Path.ofParts_ne_empty (by simp) (hnamed.slash_not_mem n)
    (hnamed.goesUpThenDown n).empty_not_mem) hplace

end Checkout

end RepoAudit
