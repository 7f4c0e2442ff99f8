import RepoAudit.Proofs.Files.Refusal

/-!
# What does not depend on the contents of files

Following a path looks at directories and links, never into a file.

* `FileTree.refill` — the same tree with other contents in its files;
* `FileTree.locate_refill`, `FileTree.resolve_refill` — a path leads to the same location in it;
* `FileTree.read_refill_ok`, `FileTree.read_refill_error` — what is read there is what the file holds
  now, and nothing is read where nothing was.
-/

namespace RepoAudit

/-- The entry with another content, if it is a file. -/
def Entry.refill (change : Content → Content) : Entry → Entry
  | .file c => .file (change c)
  | .directory => .directory
  | .link target => .link target

namespace FileTree

variable {change : Location → Content → Content}

/-- The tree with other contents in its files. -/
def refill (change : Location → Content → Content) (t : FileTree) : FileTree :=
  ⟨t.entries.map fun x => (x.1, x.2.refill (change x.1))⟩

theorem entryAt?_refill (change : Location → Content → Content) (t : FileTree) (loc : Location) :
    FileTree.entryAt? (t.refill change) loc = (t.entryAt? loc).map (Entry.refill (change loc)) := by
  have hfind : ∀ entries : List (Location × Entry),
      find? loc (entries.map fun x => (x.1, x.2.refill (change x.1))) =
        (find? loc entries).map (Entry.refill (change loc)) := by
    intro entries
    induction entries with
    | nil => rfl
    | cons first rest ih =>
      obtain ⟨l, e⟩ := first
      rw [List.map_cons, find?, find?, ih]
      by_cases heq : l = loc
      · subst heq
        rw [if_pos rfl, if_pos rfl, Option.map_some]
      · rw [if_neg heq, if_neg heq]
  rw [entryAt?, entryAt?]
  by_cases hne : loc = []
  · rw [if_pos hne, if_pos hne]
    rfl
  · rw [if_neg hne, if_neg hne]
    exact hfind t.entries

theorem entryAt?_refill_directory {t : FileTree} {loc : Location}
    (change : Location → Content → Content) (h : t.entryAt? loc = some .directory) :
    FileTree.entryAt? (t.refill change) loc = some .directory := by
  rw [entryAt?_refill, h]
  rfl

/-- Other contents make no link of a file, and no file of a link. -/
theorem entryAt?_refill_link_iff {t : FileTree} {loc : Location} {target : String}
    (change : Location → Content → Content) :
    FileTree.entryAt? (t.refill change) loc = some (.link target) ↔
      t.entryAt? loc = some (.link target) := by
  rw [entryAt?_refill, Option.map_eq_some_iff]
  constructor
  · rintro ⟨e, hentry, hrefill⟩
    cases e with
    | link target' => rw [hentry, ← hrefill, Entry.refill]
    | _ => cases hrefill
  · exact fun h => ⟨_, h, rfl⟩

/-- Opening a path opens the same directories and follows the same links. -/
theorem locateFrom_refill (t : FileTree) (followLast : Bool) (links : Nat) (loc : Location)
    (todo : List String) :
    (t.refill change).locateFrom followLast links loc todo =
      t.locateFrom followLast links loc todo := by
  fun_induction locateFrom t followLast links loc todo with
  | case1 links loc => rw [locateFrom]
  | case2 links loc name todo hdir hidle ih =>
    rw [locateFrom_idle (entryAt?_refill_directory change hdir) hidle, ih]
  | case3 links loc todo hdir hidle ih =>
    rw [locateFrom_up (entryAt?_refill_directory change hdir), ih]
  | case4 links loc name todo hdir hidle hup hlong =>
    exact locateFrom_long (entryAt?_refill_directory change hdir) hidle hup hlong
  | case5 links loc name todo hdir hidle hup hshort hnone =>
    refine locateFrom_missing (entryAt?_refill_directory change hdir) hidle hup hshort ?_
    rw [entryAt?_refill, hnone, Option.map_none]
  | case6 links loc name todo hdir hidle hup hshort target hlink hlast =>
    exact locateFrom_last (entryAt?_refill_directory change hdir) hidle hup hshort
      ((entryAt?_refill_link_iff change).mpr hlink) hlast
  | case7 loc name todo hdir hidle hup hshort target hlink hlast =>
    exact locateFrom_no_links (entryAt?_refill_directory change hdir) hidle hup hshort
      ((entryAt?_refill_link_iff change).mpr hlink) hlast
  | case8 loc name todo hdir hidle hup hshort target hlink hlast links ih =>
    rw [locateFrom_link (entryAt?_refill_directory change hdir) hidle hup hshort
      ((entryAt?_refill_link_iff change).mpr hlink) hlast]
    exact ih
  | case9 links loc name todo hdir hidle hup hshort e hlink hentry ih =>
    have hentry' : FileTree.entryAt? (t.refill change) (loc ++ [name]) =
        some (e.refill (change (loc ++ [name]))) := by
      rw [entryAt?_refill, hentry, Option.map_some]
    rw [locateFrom_enter (entryAt?_refill_directory change hdir) hidle hup hshort hentry', ih]
    cases e with
    | link target => exact absurd rfl (hlink target)
    | _ => simp [Entry.refill]
  | case10 links loc name todo hdir =>
    refine locateFrom_of_not_directory fun hdir' => ?_
    rw [entryAt?_refill, Option.map_eq_some_iff] at hdir'
    obtain ⟨e, hentry, hrefill⟩ := hdir'
    cases e with
    | directory => exact hdir hentry
    | _ => simp [Entry.refill] at hrefill

theorem locate_refill (t : FileTree) (cwd : Location) (followLast : Bool) (path : String) :
    (t.refill change).locate cwd followLast path = t.locate cwd followLast path := by
  rw [locate, locate, locateFrom_refill]

theorem look_refill_link_iff {t : FileTree} {cwd : Location} {s : Spot} {target : String}
    (change : Location → Content → Content) :
    (t.refill change).look cwd s = some (.link target) ↔ t.look cwd s = some (.link target) := by
  rw [look_eq_some_iff, look_eq_some_iff, entryAt?_refill_link_iff]

/-- Resolving a path follows the same links. -/
theorem resolveFrom_refill (t : FileTree) (cwd : Location) (links : Nat) (seen : SeenLinks) (s : Spot)
    (todo : List Pending) :
    (t.refill change).resolveFrom cwd links seen s todo = t.resolveFrom cwd links seen s todo := by
  fun_induction resolveFrom t cwd links seen s todo with
  | case1 links seen s => rw [resolveFrom]
  | case2 links seen s todo ih =>
    rw [resolveFrom]
    exact ih
  | case3 links seen s todo l ih =>
    rw [resolveFrom]
    exact ih
  | case4 links seen s name parts link todo hname ih =>
    rw [resolveFrom, if_pos hname]
    exact ih
  | case5 links seen s parts link todo hname ih =>
    rw [resolveFrom, if_neg hname, if_pos rfl]
    exact ih
  | case6 links seen s name parts link todo hidle hup hpass next target hlook place hmet ih =>
    have hlink := (look_refill_link_iff change).mpr hlook
    rw [resolveFrom, if_neg hidle, if_neg hup, if_pos hpass]
    simp only [next] at hlink hmet
    simp only [hlink, hmet]
    exact ih
  | case7 links seen s name parts link todo hidle hup hpass next target hlook hmet =>
    have hlink := (look_refill_link_iff change).mpr hlook
    rw [resolveFrom, if_neg hidle, if_neg hup, if_pos hpass]
    simp only [next] at hlink hmet
    simp only [hlink, hmet, next]
  | case8 seen s name parts link todo hidle hup hpass next target hlook hmet =>
    have hlink := (look_refill_link_iff change).mpr hlook
    rw [resolveFrom, if_neg hidle, if_neg hup, if_pos hpass]
    simp only [next] at hlink hmet
    simp only [hlink, hmet, next]
  | case9 seen s name parts link todo hidle hup hpass next target hlook hmet links ih =>
    have hlink := (look_refill_link_iff change).mpr hlook
    rw [resolveFrom, if_neg hidle, if_neg hup, if_pos hpass]
    simp only [next] at hlink hmet
    simp only [hlink, hmet]
    exact ih
  | case10 links seen s name parts link todo hidle hup hpass next hlook ih =>
    rw [resolveFrom, if_neg hidle, if_neg hup, if_pos hpass]
    dsimp only
    split
    · next target htarget => exact absurd ((look_refill_link_iff change).mp htarget) (hlook target)
    · exact ih
  | case11 links seen s name parts link todo hidle hup hrefused =>
    rw [resolveFrom, if_neg hidle, if_neg hup, if_neg hrefused]

theorem resolve_refill (t : FileTree) (cwd : Location) (path : String) :
    (t.refill change).resolve cwd path = t.resolve cwd path := by
  have hlength : (t.refill change).entries.length = t.entries.length := List.length_map _
  rw [resolve, resolve, resolveFrom_refill, hlength]

/-- What is read is what the file holds now. -/
theorem read_refill_ok {t : FileTree} {cwd loc : Location} {path : String} {c : Content}
    (hopen : t.locate cwd true path = .ok loc) (hread : t.read cwd path = .ok c) :
    (t.refill change).read cwd path = .ok (change loc c) := by
  obtain ⟨loc', hopen', hentry⟩ := read_eq_ok_iff.mp hread
  obtain rfl : loc = loc' := Except.ok.inj (hopen.symm.trans hopen')
  refine read_eq_ok_iff.mpr ⟨loc, (locate_refill t cwd true path).trans hopen, ?_⟩
  rw [entryAt?_refill, hentry]
  rfl

/-- What could not be read cannot be read now, for the same reason. -/
theorem read_refill_error {t : FileTree} {cwd : Location} {path : String} {e : PathError}
    (h : t.read cwd path = .error e) : (t.refill change).read cwd path = .error e := by
  rw [read] at h ⊢
  rw [locate_refill]
  cases hopen : t.locate cwd true path with
  | error e' =>
    rw [hopen] at h
    exact h
  | ok loc =>
    rw [hopen, ok_bind] at h
    rw [ok_bind, entryAt?_refill]
    cases hentry : t.entryAt? loc with
    | none =>
      rw [hentry] at h
      exact h
    | some entry =>
      rw [hentry] at h
      cases entry with
      | directory => exact h
      | link target => exact h
      | file c => exact absurd h pure_ne_error

end FileTree

end RepoAudit
