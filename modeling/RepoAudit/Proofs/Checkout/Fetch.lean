import RepoAudit.Checkout
import RepoAudit.Proofs.Address.Spelling
import RepoAudit.Proofs.Files.Making
import RepoAudit.Proofs.Files.Walk
import RepoAudit.Proofs.Machine

/-!
# What a fetch leaves behind

A fetch ends with a repository in a new directory of the work root, or with an error and the files
as they were. Whatever git does in the directory it is told to fill, and whichever way its run ends,
one of the two is true, as long as the request can be passed on to git at all and the size of what git
leaves can be found out by walking. For a request that cannot be passed on there is no error of a
checkout, and the directory that was made for it stays.

* `Checkout.Config.Usable` — what fetching relies on in a configuration;
* `Checkout.WritesInto`, `Checkout.LeavesWalkable` — what it relies on in git;
* `Checkout.FillsOrRestores` — the two ends of a fetch;
* `Checkout.fetch_fills_or_restores` — **every fetch comes to one of them**;
* `Checkout.fetch_leaves_directory` — a token with which a fetch comes to neither.
-/

namespace RepoAudit.Checkout

open FileTree

variable {c : Config} {tails : List String} {tail address path : String} {fires : Option Decimal}
  {m m' : Machine} {loc : Location} {t t' : FileTree} {r : Repository}

/-- What fetching relies on in a configuration: a work root that could be made, a start of names that
stays in one name, a token that a program can be given, and a limit that has a deadline. -/
structure Config.Usable (c : Config) : Prop where
  prepared : ∃ m m', c.prepare m = .ok m'
  stem : '/' ∉ c.stem.toList ∧ Path.IsPassable c.stem
  token : Path.IsPassable c.token
  limit : c.limit.isCountable = true

/-- The end of a name that may be tried: letters, digits and underscores. -/
def IsTail (tail : String) : Prop := tail ≠ "" ∧ ∀ ch ∈ tail.toList, ch.isAlphanum = true ∨ ch = '_'

/-- A program that is told to fill a directory, the last of its arguments, and writes only into
it. -/
def WritesInto (p : Program) : Prop :=
  ∀ (l : Launch) (place loc : Location) (t : FileTree), t.WellFormed →
    t.entryAt? loc = some .directory →
    (∃ path ∈ l.args.getLast?, t.locate place true path = .ok loc) →
      (p l place t).2.WellFormed ∧
        ∀ l', Location.isBelow loc l' = false → FileTree.entryAt? (p l place t).2 l' = t.entryAt? l'

/-- What git leaves in a new directory after a run without an error can be walked through: no directory
in it has too long a path, and they are not nested too deep. -/
def LeavesWalkable (c : Config) (tails : List String) (fires : Option Decimal) (address : String)
    (m : Machine) : Prop :=
  ∀ r path loc m', Address.parse address = .ok r → newDirectory c tails m = .ok (path, loc, m') →
    ∀ f, (m'.run (request c r path) c.limit fires).1 = .ok f → f.exitCode = 0 →
      (m'.run (request c r path) c.limit fires).2.files.Walkable m.directory (fun _ => true) m.nesting
        path loc

/-- A free location in the work root, under a name with the right start, and its path. -/
structure NewInRoot (c : Config) (tails : List String) (t : FileTree) (cwd : Location)
    (path : String) (loc : Location) : Prop where
  named : ∃ parent, ∃ tail ∈ tails, t.locate cwd true c.root = .ok parent ∧
    t.entryAt? parent = some .directory ∧ loc = parent ++ [c.stem ++ tail] ∧
    IsFileName (c.stem ++ tail) ∧ path = Path.join c.root (c.stem ++ tail)
  free : t.entryAt? loc = none

/-- A repository has been fetched into a new directory of the work root. What is in there is not too
large, and everything else is as it was. -/
structure Filled (c : Config) (tails : List String) (address : String) (t t' : FileTree)
    (cwd : Location) (ck : Checkout) (loc : Location) : Prop where
  repository : Address.parse address = .ok ck.repository
  new : NewInRoot c tails t cwd ck.path loc
  opened : t'.locate cwd true ck.path = .ok loc
  directory : t'.entryAt? loc = some .directory
  fits : (t'.occupied loc : Int) ≤ c.maxMegabytes * megabyte
  others : ∀ l, ¬ loc <+: l → t'.entryAt? l = t.entryAt? l

/-- A fetch ends with a repository in a new directory, or with an error and the files as they
were. -/
def FillsOrRestores (c : Config) (tails : List String) (fires : Option Decimal) (address : String)
    (m : Machine) : Prop :=
  (∃ ck loc, (fetch c tails fires address m).1 = .ok ck ∧
    Filled c tails address m.files (fetch c tails fires address m).2.files m.directory ck loc) ∨
  ∃ e, (fetch c tails fires address m).1 = .error (.fault e) ∧
    ∀ l, FileTree.entryAt? (fetch c tails fires address m).2.files l = m.files.entryAt? l

/-! ### Names and texts -/

/-- The characters of names of repositories are early ones. -/
theorem toNat_of_isNameChar {ch : Char} (h : Address.isNameChar ch = true) :
    45 ≤ ch.toNat ∧ ch.toNat ≤ 122 := by
  rw [Address.isNameChar_iff, Address.isAlphanum_iff] at h
  rcases h with hplain | rfl | rfl | rfl
  · omega
  all_goals decide

theorem isRefused_of_isNameChar {ch : Char} (h : Address.isNameChar ch = true) :
    Path.isRefused ch = false := by
  obtain ⟨hlow, hhigh⟩ := toNat_of_isNameChar h
  have hne : ch ≠ '\x00' := by
    rintro rfl
    exact absurd hlow (by decide)
  rw [Path.isRefused, Text.isUnencodable, Text.half?, if_neg (by omega)]
  simpa using hne

theorem IsTail.isNameChar (htail : IsTail tail) : ∀ ch ∈ tail.toList, Address.isNameChar ch = true := by
  intro ch hch
  rcases htail.2 ch hch with h | rfl
  · rw [Address.isNameChar, h]
    rfl
  · decide

/-- The name of a new directory is a name, and the system takes it. -/
theorem isName_of_tail (hc : c.Usable) (htail : IsTail tail) :
    Path.IsName (c.stem ++ tail) ∧ '/' ∉ (c.stem ++ tail).toList ∧ Path.IsPassable (c.stem ++ tail) := by
  have hplain : ∀ ch ∈ tail.toList, ch ≠ '.' ∧ ch ≠ '/' := by
    intro ch hch
    constructor <;> rintro rfl <;> rcases htail.2 _ hch with h | h <;> revert h <;> decide
  -- a name that ends in such a character is none of the three that stand for something else
  have hlast : ∀ ch, (c.stem ++ tail).toList.getLast? = some ch → ch ≠ '.' := by
    intro ch h
    rw [String.toList_append, List.getLast?_append_of_ne_nil _ (by simpa using htail.1)] at h
    exact (hplain ch (List.mem_of_getLast? h)).1
  refine ⟨⟨fun h => ?_, fun h => ?_, fun h => ?_⟩, ?_, Path.isPassable_append.mpr ⟨hc.stem.2, ?_⟩⟩
  · simp [htail.1] at h
  · exact hlast '.' (by rw [h]; rfl) rfl
  · exact hlast '.' (by rw [h]; rfl) rfl
  · rw [String.toList_append, List.mem_append, not_or]
    exact ⟨hc.stem.1, fun hslash => (hplain _ hslash).2 rfl⟩
  · exact fun ch hch => isRefused_of_isNameChar (htail.isNameChar ch hch)

/-- A work root that could be made has a path that can be opened. -/
theorem Config.Usable.root (hc : c.Usable) : c.root ≠ "" ∧ Path.IsPassable c.root := by
  obtain ⟨m, m', h⟩ := hc.prepared
  rw [Config.prepare] at h
  split at h
  · next files hmade => exact ne_empty_of_makePath hmade
  · cases h

theorem isPassable_path (hc : c.Usable) (htail : IsTail tail) :
    Path.IsPassable (Path.join c.root (c.stem ++ tail)) :=
  hc.root.2.join (isName_of_tail hc htail).2.2

/-- The address that git is given can be passed on. -/
theorem isPassable_source (hc : c.Usable) (hr : Address.parse address = .ok r) :
    Path.IsPassable (c.source r) := by
  obtain ⟨howner, hname⟩ := Address.forms_of_parse hr
  have howner : Path.IsPassable r.owner := by
    intro ch hch
    rcases Address.char_of_isOwner howner hch with rfl | halnum
    · decide
    · exact isRefused_of_isNameChar (by rw [Address.isNameChar, halnum]; rfl)
  have hname : Path.IsPassable r.name := by
    rw [Address.isName, Bool.and_eq_true, List.all_eq_true] at hname
    exact fun ch hch => isRefused_of_isNameChar (hname.2 ch hch)
  have hfixed : Path.IsPassable (String.ofList Redaction.tokenUser) ∧ Path.IsPassable "@" ∧
      Path.IsPassable "" ∧ Path.IsPassable Address.scheme ∧ Path.IsPassable Address.host ∧
      Path.IsPassable "/" ∧ Path.IsPassable ".git" := by decide
  rw [Config.source]
  split <;> simp only [Path.isPassable_append, hfixed, howner, hname, hc.token, and_self]

/-- The request for git can be passed on. -/
theorem passable_request (hc : c.Usable) (hr : Address.parse address = .ok r)
    (hpath : Path.IsPassable path) : (request c r path).Passable := by
  have hfixed : Path.IsPassable "git" ∧ Path.IsPassable "clone" ∧ Path.IsPassable "--depth=1" ∧
      Path.IsPassable "--single-branch" ∧ Path.IsPassable "GIT_TERMINAL_PROMPT" ∧
      Path.IsPassable "0" := by decide
  constructor
  · simp [request]
  · simp [request, hfixed, isPassable_source hc hr, hpath]
  · simp [request]

/-! ### The new directory -/

/-- The names are tried one after the other. (The equations that come with the definition take long to
derive.) -/
theorem newDirectory_cons (tail : String) (rest : List String) :
    newDirectory c (tail :: rest) m =
      match m.files.makeDirectory m.directory (Path.join c.root (c.stem ++ tail)) with
      | .ok (files, loc) =>
        .ok (Path.join c.root (c.stem ++ tail), loc, { m with files := files })
      | .error .alreadyThere => newDirectory c rest m
      | .error (.refused r) => .error (.crashed r.message)
      | .error _ => .error (.fault (.because .failed "failed to create temp directory")) := (rfl)

/-- A directory that has been made is new in the work root, and its path leads to it as long as it
stays and all else does. -/
theorem newDirectory_eq_ok (hc : c.Usable) (htails : ∀ tail ∈ tails, IsTail tail)
    (h : newDirectory c tails m = .ok (path, loc, m')) :
    NewInRoot c tails m.files m.directory path loc ∧
      m' = { m with files := m.files.put loc .directory } ∧ Path.IsPassable path ∧
      ∀ u : FileTree, (∀ l e, m.files.entryAt? l = some e → u.entryAt? l = some e) →
        u.entryAt? loc = some .directory → u.locate m.directory true path = .ok loc := by
  induction tails with
  | nil => cases h
  | cons tail rest ih =>
    rw [List.forall_mem_cons] at htails
    rw [newDirectory_cons] at h
    split at h
    · next files place hmade =>
      obtain ⟨rfl, rfl, rfl⟩ : _ = path ∧ place = loc ∧ _ = m' := by simpa using h
      obtain ⟨hname, hslash, -⟩ := isName_of_tail hc htails.1
      obtain ⟨parent, hparent, hdir, rfl, hfree, rfl, hfile, hleads⟩ :=
        makeDirectory_join hc.root.1 hname hslash hmade
      exact ⟨⟨⟨parent, tail, List.mem_cons_self, hparent, hdir, rfl, hfile, rfl⟩, hfree⟩, rfl,
        isPassable_path hc htails.1, hleads⟩
    · -- the name is taken
      obtain ⟨⟨⟨parent, tail', htail', hnamed⟩, hfree⟩, hrest⟩ := ih htails.2 h
      exact ⟨⟨⟨parent, tail', List.mem_cons_of_mem _ htail', hnamed⟩, hfree⟩, hrest⟩
    · cases h
    · cases h

/-- That no directory can be made is an error of the checkout. -/
theorem newDirectory_eq_error {stop : CheckoutStop} (hc : c.Usable)
    (htails : ∀ tail ∈ tails, IsTail tail) (h : newDirectory c tails m = .error stop) :
    ∃ e, stop = .fault e := by
  induction tails with
  | nil => exact ⟨_, (Except.error.inj h).symm⟩
  | cons tail rest ih =>
    rw [List.forall_mem_cons] at htails
    rw [newDirectory_cons] at h
    split at h
    · cases h
    · exact ih htails.2 h
    · next refusal hrefused =>
      exact absurd (isPassable_path hc htails.1) (makeDirectory_eq_refused_iff.mp ⟨_, hrefused⟩)
    · exact ⟨_, (Except.error.inj h).symm⟩

/-! ### What the run of git means -/

/-- The size of a directory that can be walked through is found out and allowed, or there is an error
of the checkout. -/
theorem weigh_cases (c : Config) {size : Except WalkStop Nat}
    (h : ∀ stop, size = .error stop → ∃ p, stop = .onPath .nameTooLong p) :
    (∃ e, c.weigh size = .error (.fault e)) ∨
      ∃ n : Nat, size = .ok n ∧ c.weigh size = .ok () ∧ (n : Int) ≤ c.maxMegabytes * megabyte := by
  cases size with
  | error stop =>
    obtain ⟨p, rfl⟩ := h stop rfl
    exact .inl ⟨_, rfl⟩
  | ok n =>
    rw [Config.weigh]
    split
    · exact .inl ⟨_, rfl⟩
    · next hfits => exact .inr ⟨n, rfl, rfl, not_lt.mp hfits⟩

/-- A run that is no defect is an error of the checkout, or leaves a directory that is not too
large. -/
theorem verdict_cases (c : Config) {size : Except WalkStop Nat}
    {reply : Except Execution.Failure Execution.Finished}
    (hreply : ∀ message, reply ≠ .error (.crashed message))
    (hsize : ∀ f, reply = .ok f → f.exitCode = 0 →
      ∀ stop, size = .error stop → ∃ p, stop = .onPath .nameTooLong p) :
    (∃ e, verdict c reply size = .error (.fault e)) ∨
      (∃ f, reply = .ok f ∧ f.exitCode = 0) ∧ verdict c reply size = .ok () ∧
        ∃ n : Nat, size = .ok n ∧ (n : Int) ≤ c.maxMegabytes * megabyte := by
  rw [verdict.eq_def]
  split
  · exact .inl ⟨_, rfl⟩
  · exact .inl ⟨_, rfl⟩
  · exact .inl ⟨_, rfl⟩
  · next message => exact absurd rfl (hreply message)
  · next f =>
    split
    · exact .inl ⟨_, rfl⟩
    · next hcode =>
      have hzero : f.exitCode = 0 := not_not.mp hcode
      refine (weigh_cases c (hsize f rfl hzero)).imp_right ?_
      rintro ⟨n, hn, hweigh, hfits⟩
      exact ⟨⟨f, rfl, hzero⟩, hweigh, n, hn, hfits⟩

/-- Git changes nothing but what is in the directory that it is told to fill. -/
theorem files_run_request (c : Config) (r : Repository) (fires : Option Decimal)
    (hgit : ∀ p, m.programs.lookup "git" = some p → WritesInto p) (ht : m.files.WellFormed)
    (hdir : m.files.entryAt? loc = some .directory)
    (hleads : m.files.locate m.directory true path = .ok loc) :
    (m.run (request c r path) c.limit fires).2.files.WellFormed ∧
      ∀ l, Location.isBelow loc l = false →
        FileTree.entryAt? (m.run (request c r path) c.limit fires).2.files l = m.files.entryAt? l := by
  rcases m.files_run (request c r path) c.limit fires with hfiles | ⟨p, place, hp, hplace, hfiles⟩
  · rw [hfiles]
    exact ⟨ht, fun l _ => rfl⟩
  · obtain rfl : m.directory = place := Except.ok.inj hplace
    rw [hfiles]
    exact hgit p hp _ _ loc m.files ht hdir ⟨path, rfl, hleads⟩

/-- The files after a run of git in a new directory: the directory is there, its path leads to it, and
nothing has changed that is not in it. -/
structure RanIn (t t' : FileTree) (cwd : Location) (path : String) (loc : Location) : Prop where
  wellFormed : t'.WellFormed
  directory : t'.entryAt? loc = some .directory
  opened : t'.locate cwd true path = .ok loc
  others : ∀ l, ¬ loc <+: l → t'.entryAt? l = t.entryAt? l

theorem ranIn_newDirectory (hc : c.Usable) (htails : ∀ tail ∈ tails, IsTail tail)
    (hgit : ∀ p, m.programs.lookup "git" = some p → WritesInto p) (ht : m.files.WellFormed)
    (hnew : newDirectory c tails m = .ok (path, loc, m')) (r : Repository)
    (fires : Option Decimal) :
    RanIn m.files (m'.run (request c r path) c.limit fires).2.files m.directory path loc := by
  obtain ⟨⟨⟨parent, tail, -, -, hdir, hloc, hfile, -⟩, hfree⟩, rfl, -, hleads⟩ :=
    newDirectory_eq_ok hc htails hnew
  have hne : loc ≠ [] := by
    rw [hloc]
    simp
  have hmade : FileTree.entryAt? (m.files.put loc .directory) loc = some .directory :=
    entryAt?_put _ _ hne
  have hsame : ∀ l, ¬ loc <+: l →
      FileTree.entryAt? (m.files.put loc .directory) l = m.files.entryAt? l :=
    fun l hl => entryAt?_put_other _ _ fun heq => hl (heq ▸ List.prefix_rfl)
  -- what was there is not at or below the new directory
  have hmore : ∀ t' : FileTree, (∀ l, ¬ loc <+: l → t'.entryAt? l = m.files.entryAt? l) →
      ∀ l e, m.files.entryAt? l = some e → t'.entryAt? l = some e := by
    intro t' hothers l e hl
    refine (hothers l fun hbelow => ?_).trans hl
    rw [ht.entryAt?_eq_none hfree hbelow] at hl
    cases hl
  have hwell : (m.files.put loc .directory).WellFormed := by
    rw [hloc] at hfree ⊢
    exact ht.put hdir hfree hfile _
  obtain ⟨hwell', hkept⟩ :=
    files_run_request c r fires (m := { m with files := m.files.put loc .directory }) hgit hwell
      hmade (hleads _ (hmore _ hsame) hmade)
  have hstays := (hkept loc (by simp [Location.isBelow])).trans hmade
  have hothers : ∀ l, ¬ loc <+: l → _ = m.files.entryAt? l := fun l hl =>
    (hkept l (Location.isBelow_eq_false hl)).trans (hsame l hl)
  exact ⟨hwell', hstays, hleads _ (hmore _ hothers) hstays, hothers⟩

/-! ### The ends of a fetch -/

theorem fetch_of_parse_error {e : AddressError} (h : Address.parse address = .error e) :
    fetch c tails fires address m = (.error (.fault (.because .failed e.message)), m) := by
  rw [fetch, h]

theorem fetch_of_newDirectory_error {stop : CheckoutStop} (hr : Address.parse address = .ok r)
    (h : newDirectory c tails m = .error stop) :
    fetch c tails fires address m = (.error stop, m) := by
  rw [fetch, hr]
  dsimp only
  rw [h]

/-- What a fetch comes to when its directory has been made. -/
theorem fetch_of_newDirectory (hr : Address.parse address = .ok r)
    (h : newDirectory c tails m = .ok (path, loc, m')) :
    fetch c tails fires address m =
      let ran := m'.run (request c r path) c.limit fires
      let v := verdict c ran.1 (ran.2.files.measure m'.directory m'.nesting path)
      (v.map fun _ => ⟨path, r⟩, if keepsDirectory v then ran.2
        else { ran.2 with files := ran.2.files.removeBelow loc }) := by
  obtain ⟨hdirectory, hnesting⟩ := m'.directory_run (request c r path) c.limit fires
  rw [fetch, hr]
  dsimp only
  rw [h]
  dsimp only
  rw [hdirectory, hnesting]

/-- **A fetch ends with a repository in a new directory of the work root, or with an error and the
files as they were**, for every address, every state of the files and everything that git may do in
the directory that it is told to fill, if what it leaves there can be walked through. -/
theorem fetch_fills_or_restores (hc : c.Usable) (htails : ∀ tail ∈ tails, IsTail tail)
    (hgit : ∀ p, m.programs.lookup "git" = some p → WritesInto p) (ht : m.files.WellFormed)
    (fires : Option Decimal) (address : String) (hwalk : LeavesWalkable c tails fires address m) :
    FillsOrRestores c tails fires address m := by
  cases hr : Address.parse address with
  | error e =>
    rw [FillsOrRestores, fetch_of_parse_error hr]
    exact .inr ⟨_, rfl, fun l => rfl⟩
  | ok r =>
  cases hnew : newDirectory c tails m with
  | error stop =>
    obtain ⟨e, rfl⟩ := newDirectory_eq_error hc htails hnew
    rw [FillsOrRestores, fetch_of_newDirectory_error hr hnew]
    exact .inr ⟨e, rfl, fun l => rfl⟩
  | ok made =>
  obtain ⟨path, loc, m'⟩ := made
  have hwalk := hwalk r path loc m' hr hnew
  have hran := ranIn_newDirectory hc htails hgit ht hnew r fires
  obtain ⟨hchild, rfl, hpass, -⟩ := newDirectory_eq_ok hc htails hnew
  have hreply := Machine.run_ne_crashed (m := { m with files := m.files.put loc .directory })
    (passable_request hc hr hpass) hc.limit fires
  rw [FillsOrRestores, fetch_of_newDirectory hr hnew]
  generalize Machine.run _ (request c r path) c.limit fires = ran at hwalk hran hreply ⊢
  dsimp only
  have hlisted : ran.2.files.listed m.directory path = .ok loc :=
    listed_eq_ok_iff.mpr ⟨hran.opened, hran.directory⟩
  rcases verdict_cases c hreply fun f hf hcode stop hstop =>
    exists_long_of_measure hran.wellFormed hlisted (hwalk f hf hcode) hstop with
    ⟨e, hv⟩ | ⟨⟨f, hf, hcode⟩, hv, n, hn, hfits⟩
  · rw [hv]
    exact .inr ⟨e, rfl, ht.entryAt?_removeBelow_of_free hchild.free hran.others⟩
  · rw [hv]
    have hoccupied := occupied_le_of_measure hran.wellFormed hlisted (hwalk f hf hcode) hn
    refine .inl ⟨⟨path, r⟩, loc, rfl, hr, hchild, hran.opened, hran.directory, ?_, hran.others⟩
    exact (Int.ofNat_le.mpr hoccupied).trans hfits

/-! ### One fetch -/

/-- A git that writes one file, unless the directory has it already. -/
def plainGit : Program := fun l place t =>
  match l.args.getLast?.map fun path => t.locate place true path with
  | some (.ok loc) =>
    if t.entryAt? (loc ++ ["README"]) = none then ({}, t.put (loc ++ ["README"]) (.file (.ofText "hi")))
    else ({ code := 128 }, t)
  | _ => ({ code := 128 }, t)

theorem writesInto_plainGit : WritesInto plainGit := by
  rintro l place loc t ht hdir ⟨path, hpath, hopen⟩
  have hlast : l.args.getLast? = some path := hpath
  rw [plainGit, hlast, Option.map_some, hopen]
  dsimp only
  split
  · next hfree =>
    refine ⟨ht.put hdir hfree (by decide) _, fun l' hl' => entryAt?_put_other t _ ?_⟩
    rintro rfl
    simp [Location.isBelow] at hl'
  · exact ⟨ht, fun l' _ => rfl⟩

/-- A machine with an empty work root. -/
def workMachine : Machine where
  files := FileTree.empty.put ["clones"] .directory
  programs := [("git", plainGit)]

theorem wellFormed_workMachine : workMachine.files.WellFormed := by
  have hempty : FileTree.empty.WellFormed := by decide
  show (FileTree.empty.put ([] ++ ["clones"]) .directory).WellFormed
  exact hempty.put rfl rfl (by decide) .directory

/-- Repositories are fetched into that work root. -/
def workConfig (token : String) : Config := { token := token, root := "/clones" }

theorem locate_workMachine : workMachine.files.locate [] true "/clones" = .ok ["clones"] ∧
    workMachine.files.locate [] true "/clones/" = .ok ["clones"] := by
  have hparts : Path.parts "/clones" = ["", "clones"] ∧ Path.parts "/clones/" = ["", "clones", ""] := by
    decide
  have habsolute : Path.isAbsolute "/clones" = true ∧ Path.isAbsolute "/clones/" = true := by
    decide
  have hpassable : Path.IsPassable "/clones" ∧ Path.IsPassable "/clones/" := by decide
  have hlength : (Text.nameBytes "/clones").length = 7 ∧
      (Text.nameBytes "/clones/").length = 8 ∧ (Text.nameBytes "clones").length = 6 := by decide
  have hentry : workMachine.files.entryAt? ["clones"] = some .directory := by decide
  simp [locate, hpassable, hparts, habsolute, hlength, locateFrom, entryAt?_nil, hentry, maxPathLength,
    maxNameLength]

theorem prepare_workConfig (token : String) :
    (workConfig token).prepare workMachine = .ok workMachine := by
  have hstages : stages "/clones" = ["", "/clones"] := by decide
  have hleads : workMachine.files.leadsToDirectory [] "/clones" = true := by
    rw [leadsToDirectory, locate_workMachine.1]
    decide
  have hmade : workMachine.files.makePath [] "/clones" = .ok workMachine.files := by
    rw [makePath, if_neg (by decide), hstages]
    simp [List.foldlM, hleads, ok_bind]
  have hroot : workMachine.files.makePath workMachine.directory (workConfig token).root =
      .ok workMachine.files := hmade
  rw [Config.prepare, hroot]

/-- The address of the examples below, and what it names. -/
def octo : String := "https://github.com/octo/repo"

theorem parse_octo : Address.parse octo = .ok ⟨"octo", "repo"⟩ := by decide

/-- The machine once the directory is made. -/
def madeMachine : Machine :=
  { workMachine with files := workMachine.files.put ["clones", "scan-repo-x"] .directory }

theorem newDirectory_workMachine (token : String) :
    newDirectory (workConfig token) ["x"] workMachine =
      .ok ("/clones/scan-repo-x", ["clones", "scan-repo-x"], madeMachine) := by
  have hpath : Path.join (workConfig token).root ((workConfig token).stem ++ "x") =
      "/clones/scan-repo-x" := by
    show Path.join "/clones" ("scan-repo-" ++ "x") = _
    decide
  have hparts : Path.parts "/clones/scan-repo-x" = ["", "clones", "scan-repo-x"] ∧
      Path.baseName "/clones/scan-repo-x" = "scan-repo-x" ∧
      Path.ofParts ["", "clones", ""] = "/clones/" := by decide
  have hpassable : Path.IsPassable "/clones/scan-repo-x" := by decide
  have hlength : (Text.nameBytes "/clones/scan-repo-x").length = 19 ∧
      (Text.nameBytes "scan-repo-x").length = 11 := by decide
  have hentry : workMachine.files.entryAt? ["clones"] = some .directory := by decide
  have hplace : workMachine.files.newPlace [] "/clones/scan-repo-x" =
      .ok ["clones", "scan-repo-x"] := by
    simp [newPlace, hpassable, hparts, hlength, locate_workMachine.2, hentry, ok_bind, maxPathLength,
      maxNameLength]
    rfl
  have hmade : workMachine.files.makeDirectory workMachine.directory "/clones/scan-repo-x" =
      .ok (madeMachine.files, ["clones", "scan-repo-x"]) :=
    makeDirectory_eq_ok_iff.mpr ⟨hplace, by decide, rfl⟩
  rw [newDirectory_cons, hpath, hmade]
  rfl

theorem usable_workConfig : (workConfig "t").Usable :=
  ⟨⟨_, _, prepare_workConfig "t"⟩, by decide, by decide, by decide +kernel⟩

theorem isTail_x : ∀ tail ∈ ["x"], IsTail tail := by
  rintro tail (_ | ⟨_, ⟨⟩⟩)
  refine ⟨by decide, fun ch hch => ?_⟩
  obtain rfl : ch = 'x' := List.mem_singleton.mp hch
  exact .inl (by decide)

theorem writesInto_workMachine (p : Program) (h : workMachine.programs.lookup "git" = some p) :
    WritesInto p := by
  have hp : plainGit = p := Option.some.inj h
  exact hp ▸ writesInto_plainGit

/-- The files once git has written its one file. -/
def filledFiles : FileTree :=
  madeMachine.files.put ["clones", "scan-repo-x", "README"] (.file (.ofText "hi"))

theorem locate_madeMachine (hmore : ∀ l e, madeMachine.files.entryAt? l = some e → t.entryAt? l = some e) :
    t.locate [] true "/clones/scan-repo-x" = .ok ["clones", "scan-repo-x"] := by
  obtain ⟨-, -, -, hleads⟩ := newDirectory_eq_ok usable_workConfig isTail_x (newDirectory_workMachine "t")
  refine hleads _ (fun l e hl => hmore l e ?_) (hmore _ _ (by decide))
  have hfree : workMachine.files.entryAt? ["clones", "scan-repo-x"] = none := by decide
  refine Eq.trans (entryAt?_put_other _ _ ?_) hl
  rintro rfl
  rw [hfree] at hl
  cases hl

theorem wellFormed_filledFiles : filledFiles.WellFormed := by
  have hmade : (workMachine.files.put (["clones"] ++ ["scan-repo-x"]) .directory).WellFormed :=
    wellFormed_workMachine.put (by decide) (by decide) (by decide) .directory
  have hfilled : (madeMachine.files.put (["clones", "scan-repo-x"] ++ ["README"])
      (.file (.ofText "hi"))).WellFormed := WellFormed.put hmade (by decide) (by decide) (by decide) _
  exact hfilled

theorem listed_filledFiles : filledFiles.listed [] "/clones/scan-repo-x" = .ok ["clones", "scan-repo-x"] := by
  refine listed_eq_ok_iff.mpr ⟨locate_madeMachine fun l e hl => ?_, by decide⟩
  have hfree : madeMachine.files.entryAt? ["clones", "scan-repo-x", "README"] = none := by decide
  refine Eq.trans (entryAt?_put_other _ _ ?_) hl
  rintro rfl
  rw [hfree] at hl
  cases hl

/-- There are no directories to go into. -/
theorem walk_filledFiles (strict : Bool) (levels : Nat) :
    filledFiles.walk [] (fun _ => true) strict (levels + 1) "/clones/scan-repo-x" =
      ⟨[⟨"/clones/scan-repo-x", ["README"]⟩], none⟩ := by
  have hentered : filledFiles.entered (fun _ => true) ["clones", "scan-repo-x"] = [] := by decide
  have hothers : filledFiles.othersIn [] "/clones/scan-repo-x" ["clones", "scan-repo-x"] = ["README"] := by
    decide
  rw [walk_succ listed_filledFiles, hentered, hereIn, hothers]
  rfl

theorem measure_filledFiles (levels : Nat) :
    filledFiles.measure [] (levels + 1) "/clones/scan-repo-x" = .ok 2 := by
  have hpaths : Walk.paths ⟨[⟨"/clones/scan-repo-x", ["README"]⟩], none⟩ =
      [Path.join "/clones/scan-repo-x" "README"] := rfl
  have hlength : ¬ maxPathLength <
      (Text.nameBytes (Path.join "/clones/scan-repo-x" "README")).length := by decide +kernel
  obtain ⟨hopen, hdir⟩ := listed_eq_ok_iff.mp listed_filledFiles
  have hname : IsFileName "README" := by decide
  have hentry : filledFiles.entryAt? (["clones", "scan-repo-x"] ++ ["README"]) =
      some (.file (.ofText "hi")) := by decide
  have hlocate := locate_join_last hopen hdir hname hentry
  rw [if_neg hlength] at hlocate
  rw [FileTree.measure, walk_filledFiles, hpaths, FileTree.sizeOf, hlocate]
  decide

/-- The request that git gets. -/
def octoRequest : Launch := request (workConfig "t") ⟨"octo", "repo"⟩ "/clones/scan-repo-x"

theorem run_madeMachine : madeMachine.run octoRequest (workConfig "t").limit none =
    (Execution.runBehaviour "git" (workConfig "t").limit none (.ok {}),
      { madeMachine with files := filledFiles, journal := [(octoRequest, [])] }) := by
  have hgit : plainGit octoRequest [] madeMachine.files = ({}, filledFiles) := by
    have hlast : octoRequest.args.getLast? = some "/clones/scan-repo-x" := rfl
    rw [plainGit, hlast, Option.map_some, locate_madeMachine fun _ _ => id]
    exact if_pos (by decide)
  have hpassable : octoRequest.Passable :=
    passable_request usable_workConfig parse_octo (by decide)
  have hplace : madeMachine.startingPlace octoRequest = .ok [] := rfl
  have hstart := Machine.start_eq (p := plainGit) hpassable hplace rfl
  rw [hgit] at hstart
  rw [Machine.run, usable_workConfig.limit, hstart]
  rfl

theorem leavesWalkable_workMachine :
    LeavesWalkable (workConfig "t") ["x"] none octo workMachine := by
  intro r path loc m' hr hnew f _ _
  obtain rfl := Except.ok.inj (parse_octo.symm.trans hr)
  obtain ⟨rfl, rfl, rfl⟩ : "/clones/scan-repo-x" = path ∧ ["clones", "scan-repo-x"] = loc ∧
      madeMachine = m' := by simpa [newDirectory_workMachine] using hnew
  have hrun := congrArg (fun ran => ran.2.files) run_madeMachine
  rw [octoRequest] at hrun
  rw [hrun]
  refine (stop_walk_eq_none_iff wellFormed_filledFiles listed_filledFiles).mp ?_
  exact congrArg Walk.stop (walk_filledFiles true 949)

/-- The repository is fetched. -/
theorem fetch_workMachine : (fetch (workConfig "t") ["x"] none octo workMachine).1 =
    .ok ⟨"/clones/scan-repo-x", ⟨"octo", "repo"⟩⟩ := by
  have hrun := run_madeMachine
  rw [octoRequest] at hrun
  have hmeasure : filledFiles.measure madeMachine.directory madeMachine.nesting "/clones/scan-repo-x" =
      .ok 2 := measure_filledFiles 949
  rw [fetch_of_newDirectory parse_octo (newDirectory_workMachine "t"), hrun]
  dsimp only
  rw [hmeasure]
  decide +kernel

/-- The repository is fetched into a new directory, and nothing else has changed. -/
theorem fetch_fills_or_restores_octo : ∃ loc, Filled (workConfig "t") ["x"] octo workMachine.files
    (fetch (workConfig "t") ["x"] none octo workMachine).2.files []
    ⟨"/clones/scan-repo-x", ⟨"octo", "repo"⟩⟩ loc := by
  rcases fetch_fills_or_restores usable_workConfig isTail_x writesInto_workMachine
    wellFormed_workMachine none octo leavesWalkable_workMachine with
    ⟨ck, loc, hck, hfilled⟩ | ⟨e, herror, -⟩
  · rw [fetch_workMachine, Except.ok.injEq] at hck
    exact ⟨loc, hck ▸ hfilled⟩
  · rw [fetch_workMachine] at herror
    cases herror

/-! ### A request that cannot be passed on -/

/-- With a token that holds the character U+0000 git is not started. -/
theorem fetch_null_token : fetch (workConfig "a\x00b") ["x"] none octo workMachine =
    (.error (.crashed "embedded null byte"), madeMachine) := by
  have hstart : madeMachine.start (request (workConfig "a\x00b") ⟨"octo", "repo"⟩
      "/clones/scan-repo-x") = (.error (.crashed "embedded null byte"), madeMachine) := by
    have hdefect : (request (workConfig "a\x00b") ⟨"octo", "repo"⟩ "/clones/scan-repo-x").defect? =
        some "embedded null byte" := by decide +kernel
    rw [Machine.start, hdefect]
  have hlimit : (workConfig "a\x00b").limit.isCountable = true := by decide +kernel
  rw [fetch_of_newDirectory parse_octo (newDirectory_workMachine _), Machine.run, hlimit, hstart]
  simp [Execution.runBehaviour, Execution.execute, Except.map, hlimit, verdict, keepsDirectory]

/-- With such a token a fetch ends in neither way: it fails without an error of a checkout, and leaves
its directory behind. -/
theorem fetch_leaves_directory :
    (fetch (workConfig "a\x00b") ["x"] none octo workMachine).1 =
        .error (.crashed "embedded null byte") ∧
      workMachine.files.entryAt? ["clones", "scan-repo-x"] = none ∧
      FileTree.entryAt? (fetch (workConfig "a\x00b") ["x"] none octo workMachine).2.files
        ["clones", "scan-repo-x"] = some .directory ∧
      ¬ ∀ c tails fires address m, (∃ m₀ m₁, Config.prepare c m₀ = .ok m₁) →
        (∀ tail ∈ tails, IsTail tail) →
        (∀ p, List.lookup "git" (Machine.programs m) = some p → WritesInto p) →
        m.files.WellFormed → FillsOrRestores c tails fires address m := by
  rw [fetch_null_token]
  refine ⟨rfl, by decide, by decide, fun hall => ?_⟩
  rcases hall _ ["x"] none octo workMachine ⟨_, _, prepare_workConfig "a\x00b"⟩ isTail_x
    writesInto_workMachine wellFormed_workMachine with ⟨ck, loc, hck, -⟩ | ⟨e, herror, -⟩
  · rw [fetch_null_token] at hck
    cases hck
  · rw [fetch_null_token] at herror
    cases herror

end RepoAudit.Checkout
