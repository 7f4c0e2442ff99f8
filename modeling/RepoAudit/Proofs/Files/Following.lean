import Mathlib.Data.List.Infix
import RepoAudit.Files.Resolve
import RepoAudit.Proofs.Failing
import RepoAudit.Proofs.Path

/-!
# Following links to the end

What it means that a path is fully resolved, and what resolving does about it.

* `FileTree.Follows` — the parts of a path followed one by one, each link replaced by its target,
  until nothing is left; a path whose links lead round in a circle is never followed to an end, nor one
  on which a link is passed over only because its path, as it is written, is too long;
* `FileTree.StandsFor` — the place that a path stands for when it is followed to the end;
* `FileTree.IsPlace` — a location that no link stands on the way to, as far as that can be looked at;
  `Follows.isPlace` — a path leads to such a location;
* `FileTree.Run` — what is still to be followed, with what is left of each link;
* `FileTree.resolve_eq_ok` — **a path that can be followed to the end is resolved to its end**: no
  link is taken for a circle, and the bound on links is never reached;
* `FileTree.resolve_of_far_up` — behind too many steps up no link is followed;
* `FileTree.locateFrom_idle`, `FileTree.locateFrom_link`, `FileTree.locateFrom_enter` and their like
  — what opening a path makes of its first part;
* `FileTree.entryAt?_of_read` — opening a place opens what stands there.
-/

namespace RepoAudit

namespace Location

/-- Where a path starts. -/
def start (cwd : Location) (path : String) : Location := if Path.isAbsolute path then [] else cwd

/-- The names of a location are names, and no system refuses them. -/
def Named (loc : Location) : Prop :=
  ∀ name ∈ loc, Path.IsName name ∧ '/' ∉ name.toList ∧ Path.IsPassable name

instance (loc : Location) : Decidable loc.Named := inferInstanceAs (Decidable (∀ name ∈ loc, _))

/-- Names behind steps up. -/
theorem Named.goesUpThenDown {loc : Location} (h : loc.Named) (n : Nat) :
    Path.GoesUpThenDown false (List.replicate n ".." ++ loc) :=
  ⟨n, loc, rfl, fun name hname => (h name hname).1, fun h => absurd h Bool.false_ne_true⟩

theorem Named.slash_not_mem {loc : Location} (h : loc.Named) (n : Nat) :
    ∀ part ∈ List.replicate n ".." ++ loc, '/' ∉ part.toList := by
  intro part hpart
  rcases List.mem_append.mp hpart with hup | hname
  · rw [List.eq_of_mem_replicate hup]
    decide
  · exact (h part hname).2.1

/-- The path of a location above is shorter. -/
theorem length_toPath_le {loc loc' : Location} (h : loc' <+: loc) :
    (Text.nameBytes loc'.toPath).length ≤ (Text.nameBytes loc.toPath).length := by
  obtain ⟨rest, rfl⟩ := h
  simp only [toPath, Text.nameBytes_append, List.length_append]
  refine Nat.add_le_add_left ?_ _
  by_cases hloc : loc' = []
  · subst hloc
    exact Nat.zero_le _
  by_cases hrest : rest = []
  · rw [hrest, List.append_nil]
  · rw [Path.ofParts_append hloc hrest, Text.nameBytes_append, Text.nameBytes_append,
      List.length_append, List.length_append]
    omega

end Location

namespace Spot

variable {cwd : Location} {s : Spot} {name path : String}

@[simp] theorem loc_start (s : Spot) (path : String) : (s.start path).loc = s.loc.start path := by
  rw [start, Location.start]
  split <;> rfl

@[simp] theorem loc_enter (s : Spot) (name : String) : (s.enter name).loc = s.loc ++ [name] := rfl

@[simp] theorem loc_leave (cwd : Location) (s : Spot) : (s.leave cwd).loc = s.loc.dropLast := rfl

theorem enter_inj {s s' : Spot} {name name' : String} (h : s.enter name = s'.enter name') :
    s = s' ∧ name = name' := by
  obtain ⟨ups, loc⟩ := s
  obtain ⟨ups', loc'⟩ := s'
  simp only [enter, Spot.mk.injEq] at h
  obtain ⟨rfl, hloc⟩ := h
  obtain ⟨rfl, hname⟩ := List.append_inj' hloc rfl
  exact ⟨rfl, List.singleton_inj.mp hname⟩

/-- The steps up are written, so there are not many in a path that is not too long. -/
theorem ups_le {n : Nat} (h : s.ups = some n) (hfits : FileTree.Fits (s.toPath cwd)) :
    n < FileTree.maxPathLength + 2 := by
  have hlength := Path.length_le_nameBytes_ofParts
    (List.replicate n ".." ++ s.loc.drop (cwd.length - n))
  rw [FileTree.Fits, toPath, h] at hfits
  rw [List.length_append, List.length_replicate] at hlength
  dsimp only at hfits
  omega

end Spot

namespace FileTree

variable {t : FileTree} {cwd loc loc' place place' : Location} {s s' e e' : Spot} {name : String}
  {todo : List String} {n n' : Nat}

theorem look_eq_some_iff {entry : Entry} :
    t.look cwd s = some entry ↔ Fits (s.toPath cwd) ∧ t.entryAt? s.loc = some entry := by
  rw [look]
  split
  · next h => rw [and_iff_right h]
  · next h => exact iff_of_false (by simp) fun hfits => h hfits.1

/-- Following parts from a spot comes to an end after `n` parts. What is no link, or cannot be looked at,
is kept; but a link that cannot be looked at only because its path is written too long is never passed.
From the root a path is written as its location is, and there is no such link. -/
inductive Follows (t : FileTree) (cwd : Location) : Nat → Spot → List String → Spot → Prop
  | done (s : Spot) : Follows t cwd 0 s [] s
  | stay {n : Nat} {s e : Spot} {name : String} {todo : List String}
      (hname : name = "" ∨ name = ".") (h : Follows t cwd n s todo e) :
      Follows t cwd (n + 1) s (name :: todo) e
  | up {n : Nat} {s e : Spot} {todo : List String} (h : Follows t cwd n (s.leave cwd) todo e) :
      Follows t cwd (n + 1) s (".." :: todo) e
  | enter {n : Nat} {s e : Spot} {name : String} {todo : List String}
      (hname : Path.IsName name) (hpass : Path.IsPassable name)
      (hlook : ∀ target, t.look cwd (s.enter name) ≠ some (.link target))
      (hentry : Fits (Location.toPath (s.loc ++ [name])) →
        ∀ target, t.entryAt? (s.loc ++ [name]) ≠ some (.link target))
      (h : Follows t cwd n (s.enter name) todo e) : Follows t cwd (n + 1) s (name :: todo) e
  | link {n : Nat} {s e : Spot} {name target : String} {todo : List String}
      (hname : Path.IsName name) (hpass : Path.IsPassable name)
      (hlook : t.look cwd (s.enter name) = some (.link target))
      (h : Follows t cwd n (s.start target) (Path.parts target ++ todo) e) :
      Follows t cwd (n + 1) s (name :: todo) e

/-- The target of a link leads to a spot. -/
def LinkLeads (t : FileTree) (cwd : Location) (here : Spot) (cost : Nat) (e : Spot) : Prop :=
  ∃ dir name target, here = Spot.enter dir name ∧ t.look cwd here = some (.link target) ∧
    t.Follows cwd cost (dir.start target) (Path.parts target) e

/-- The place that a path stands for once every link is followed to its end. -/
def StandsFor (t : FileTree) (cwd : Location) (path : String) (place : Location) : Prop :=
  ∃ n e, t.Follows cwd n ((Spot.here cwd).start path) (Path.parts path) e ∧ e.loc = place

/-! ### One part -/

/-- An idle part is passed over. -/
theorem Follows.of_idle (h : t.Follows cwd n s (name :: todo) e) (hidle : name = "" ∨ name = ".") :
    ∃ m, n = m + 1 ∧ t.Follows cwd m s todo e := by
  cases h with
  | stay _ h => exact ⟨_, rfl, h⟩
  | up => simp at hidle
  | enter hname => exact absurd hidle hname.not_idle
  | link hname => exact absurd hidle hname.not_idle

theorem Follows.of_up (h : t.Follows cwd n s (".." :: todo) e) :
    ∃ m, n = m + 1 ∧ t.Follows cwd m (s.leave cwd) todo e := by
  cases h with
  | stay hidle => simp at hidle
  | up h => exact ⟨_, rfl, h⟩
  | enter hname => exact absurd rfl hname.2.2
  | link hname => exact absurd rfl hname.2.2

/-- A name that no link is seen at is entered. -/
theorem Follows.of_enter (h : t.Follows cwd n s (name :: todo) e) (hname : Path.IsName name)
    (hlook : ∀ target, t.look cwd (s.enter name) ≠ some (.link target)) :
    ∃ m, n = m + 1 ∧ t.Follows cwd m (s.enter name) todo e := by
  cases h with
  | stay hidle => exact absurd hidle hname.not_idle
  | up => exact absurd rfl hname.2.2
  | enter _ _ _ _ h => exact ⟨_, rfl, h⟩
  | link _ _ hlook' => exact absurd hlook' (hlook _)

/-- A link is replaced by its target. -/
theorem Follows.of_link {target : String} (h : t.Follows cwd n s (name :: todo) e)
    (hname : Path.IsName name) (hlook : t.look cwd (s.enter name) = some (.link target)) :
    ∃ m, n = m + 1 ∧ t.Follows cwd m (s.start target) (Path.parts target ++ todo) e := by
  cases h with
  | stay hidle => exact absurd hidle hname.not_idle
  | up => exact absurd rfl hname.2.2
  | enter _ _ hlook' => exact absurd hlook (hlook' _)
  | link _ _ hlook' h =>
    rw [hlook, Option.some.injEq, Entry.link.injEq] at hlook'
    subst hlook'
    exact ⟨_, rfl, h⟩

theorem Follows.isPassable (h : t.Follows cwd n s (name :: todo) e) (hname : Path.IsName name) :
    Path.IsPassable name := by
  cases h with
  | stay hidle => exact absurd hidle hname.not_idle
  | up => exact absurd rfl hname.2.2
  | enter _ hpass => exact hpass
  | link _ hpass => exact hpass

/-! ### Following -/

/-- A path has one end, and one way to it. -/
theorem Follows.unique (h : t.Follows cwd n s todo e) (h' : t.Follows cwd n' s todo e') :
    n = n' ∧ e = e' := by
  induction h generalizing n' with
  | done s =>
    cases h'
    exact ⟨rfl, rfl⟩
  | stay hidle h ih =>
    obtain ⟨m, rfl, hrest⟩ := h'.of_idle hidle
    exact ⟨congrArg _ (ih hrest).1, (ih hrest).2⟩
  | up h ih =>
    obtain ⟨m, rfl, hrest⟩ := h'.of_up
    exact ⟨congrArg _ (ih hrest).1, (ih hrest).2⟩
  | enter hname _ hlook _ h ih =>
    obtain ⟨m, rfl, hrest⟩ := h'.of_enter hname hlook
    exact ⟨congrArg _ (ih hrest).1, (ih hrest).2⟩
  | link hname _ hlook h ih =>
    obtain ⟨m, rfl, hrest⟩ := h'.of_link hname hlook
    exact ⟨congrArg _ (ih hrest).1, (ih hrest).2⟩

theorem StandsFor.unique {path : String} (h : t.StandsFor cwd path place)
    (h' : t.StandsFor cwd path place') : place = place' := by
  obtain ⟨n, e, h, rfl⟩ := h
  obtain ⟨n', e', h', rfl⟩ := h'
  rw [(h.unique h').2]

/-- What is followed to the end is followed in two stretches. -/
theorem Follows.split {first rest : List String} (h : t.Follows cwd n s (first ++ rest) e) :
    ∃ k m mid, n = k + m ∧ t.Follows cwd k s first mid ∧ t.Follows cwd m mid rest e := by
  induction n generalizing s first with
  | zero =>
    cases first with
    | nil => exact ⟨0, 0, s, rfl, .done s, h⟩
    | cons part first => cases h
  | succ n ih =>
    cases first with
    | nil => exact ⟨0, n + 1, s, (Nat.zero_add _).symm, .done s, h⟩
    | cons part first =>
      rw [List.cons_append] at h
      cases h with
      | stay hname h =>
        obtain ⟨k, m, mid, rfl, hfirst, hrest⟩ := ih h
        exact ⟨k + 1, m, mid, by omega, .stay hname hfirst, hrest⟩
      | up h =>
        obtain ⟨k, m, mid, rfl, hfirst, hrest⟩ := ih h
        exact ⟨k + 1, m, mid, by omega, .up hfirst, hrest⟩
      | enter hname hpass hlook hentry h =>
        obtain ⟨k, m, mid, rfl, hfirst, hrest⟩ := ih h
        exact ⟨k + 1, m, mid, by omega, .enter hname hpass hlook hentry hfirst, hrest⟩
      | link hname hpass hlook h =>
        rw [← List.append_assoc] at h
        obtain ⟨k, m, mid, rfl, hfirst, hrest⟩ := ih h
        exact ⟨k + 1, m, mid, by omega, .link hname hpass hlook hfirst, hrest⟩

/-! ### Places -/

/-- No link stands on the way to a location, or at it, where a path is not too long. -/
def LinkFree (t : FileTree) (loc : Location) : Prop :=
  ∀ loc', loc' <+: loc → Fits (Location.toPath loc') → ∀ target, t.entryAt? loc' ≠ some (.link target)

/-- A location as it is when everything is resolved. -/
structure IsPlace (t : FileTree) (loc : Location) : Prop where
  linkFree : t.LinkFree loc
  named : loc.Named

theorem entryAt?_nil (t : FileTree) : t.entryAt? [] = some .directory := by simp [entryAt?]

theorem isPlace_nil (t : FileTree) : t.IsPlace [] := by
  refine ⟨fun loc' hpre _ target => ?_, fun name hname => absurd hname List.not_mem_nil⟩
  rw [List.prefix_nil.mp hpre, entryAt?_nil]
  simp

theorem IsPlace.above (h : t.IsPlace loc) (hpre : loc' <+: loc) : t.IsPlace loc' :=
  ⟨fun _ hpre' => h.linkFree _ (hpre'.trans hpre), fun name hname => h.named name (hpre.subset hname)⟩

theorem IsPlace.start (h : t.IsPlace loc) (path : String) : t.IsPlace (loc.start path) := by
  rw [Location.start]
  split
  · exact isPlace_nil t
  · exact h

theorem IsPlace.concat (h : t.IsPlace loc) (hname : Path.IsName name) (hslash : '/' ∉ name.toList)
    (hpass : Path.IsPassable name)
    (hentry : Fits (Location.toPath (loc ++ [name])) →
      ∀ target, t.entryAt? (loc ++ [name]) ≠ some (.link target)) :
    t.IsPlace (loc ++ [name]) := by
  constructor
  · intro loc' hpre
    rcases List.prefix_concat_iff.mp hpre with rfl | hpre
    · exact hentry
    · exact h.linkFree loc' hpre
  · intro name' hname'
    rcases List.mem_append.mp hname' with hold | hnew
    · exact h.named name' hold
    · exact List.mem_singleton.mp hnew ▸ ⟨hname, hslash, hpass⟩

/-- A path leads to a place. -/
theorem Follows.isPlace (h : t.Follows cwd n s todo e) (hloc : t.IsPlace s.loc)
    (htodo : ∀ part ∈ todo, '/' ∉ part.toList) : t.IsPlace e.loc := by
  induction h with
  | done s => exact hloc
  | stay _ h ih => exact ih hloc fun part hpart => htodo part (List.mem_cons_of_mem _ hpart)
  | up h ih =>
    exact ih (hloc.above (List.dropLast_prefix _)) fun part hpart =>
      htodo part (List.mem_cons_of_mem _ hpart)
  | enter hname hpass hlook hentry h ih =>
    exact ih (hloc.concat hname (htodo _ List.mem_cons_self) hpass hentry)
      fun part hpart => htodo part (List.mem_cons_of_mem _ hpart)
  | @link n s e name target todo hname hpass hlook h ih =>
    refine ih (s.loc_start target ▸ hloc.start target) fun part hpart => ?_
    rcases List.mem_append.mp hpart with htarget | hrest
    · exact Path.slash_not_mem_of_mem_parts htarget
    · exact htodo part (List.mem_cons_of_mem _ hrest)

theorem StandsFor.isPlace {path : String} (h : t.StandsFor cwd path place) (hcwd : t.IsPlace cwd) :
    t.IsPlace place := by
  obtain ⟨n, e, h, rfl⟩ := h
  refine h.isPlace ?_ fun part hpart => Path.slash_not_mem_of_mem_parts hpart
  rw [Spot.loc_start]
  exact hcwd.start path

/-- From the root the names on the way to a place lead there. -/
theorem follows_names {names : List String} (h : t.IsPlace (loc ++ names)) :
    t.Follows cwd names.length ⟨none, loc⟩ names ⟨none, loc ++ names⟩ := by
  induction names generalizing loc with
  | nil =>
    rw [List.append_nil]
    exact .done _
  | cons name names ih =>
    rw [List.append_cons] at h ⊢
    have hhere : t.IsPlace (loc ++ [name]) := h.above (List.prefix_append _ _)
    obtain ⟨hname, -, hpass⟩ := hhere.named name (by simp)
    have hentry := hhere.linkFree _ List.prefix_rfl
    refine .enter hname hpass (fun target hlook => ?_) hentry (ih h)
    obtain ⟨hfits, hlink⟩ := look_eq_some_iff.mp hlook
    exact hentry hfits target hlink

/-- Empty parts change nothing. -/
theorem Follows.slashes {slashes : List String} (hslashes : ∀ slash ∈ slashes, slash = "")
    (h : t.Follows cwd n s todo e) :
    t.Follows cwd (slashes.length + n) s (slashes ++ todo) e := by
  induction slashes with
  | nil =>
    rw [List.length_nil, Nat.zero_add]
    exact h
  | cons slash rest ih =>
    have hrest := ih fun slash hslash => hslashes slash (List.mem_cons_of_mem _ hslash)
    rw [List.length_cons, Nat.add_right_comm]
    exact .stay (.inl (hslashes slash List.mem_cons_self)) hrest

/-! ### What is still to be followed -/

/-- What is still to be followed comes to an end: each list of parts leads to a spot, where the
next one goes on. A list that a link stands for has at most as many parts left as the link has
altogether, with those of the lists before it; these are `spent`. -/
def Run (t : FileTree) (cwd : Location) : Nat → Spot → List Pending → Location → Prop
  | _, s, [], place => s.loc = place
  | spent, s, f :: todo, place =>
    ∃ n mid, t.Follows cwd n s f.parts mid ∧
      (∀ here ∈ f.link, ∃ cost, t.LinkLeads cwd here cost mid ∧ spent + n ≤ cost) ∧
      Run t cwd (spent + n) mid todo place

theorem Run.mono {spent spent' : Nat} {todo : List Pending} (h : t.Run cwd spent s todo place)
    (hle : spent' ≤ spent) : t.Run cwd spent' s todo place := by
  induction todo generalizing spent spent' s with
  | nil => exact h
  | cons f todo ih =>
    obtain ⟨n, mid, hparts, hlink, hrest⟩ := h
    refine ⟨n, mid, hparts, fun here hhere => ?_, ih hrest (by omega)⟩
    obtain ⟨cost, hleads, hcost⟩ := hlink here hhere
    exact ⟨cost, hleads, by omega⟩

/-- The first list of parts can be exchanged for one that leads to the same spot with no more
parts. -/
theorem Run.exchange {parts parts' : List String} {link : Option Spot} {todo : List Pending}
    (h : t.Run cwd 0 s (⟨parts, link⟩ :: todo) place)
    (hparts : ∀ n mid, t.Follows cwd n s parts mid → ∃ m ≤ n, t.Follows cwd m s' parts' mid) :
    t.Run cwd 0 s' (⟨parts', link⟩ :: todo) place := by
  obtain ⟨n, mid, hfollows, hlink, hrest⟩ := h
  obtain ⟨m, hle, hfollows'⟩ := hparts n mid hfollows
  refine ⟨m, mid, hfollows', fun here hhere => ?_, hrest.mono (by omega)⟩
  obtain ⟨cost, hleads, hcost⟩ := hlink here hhere
  exact ⟨cost, hleads, by omega⟩

/-- A link that is being followed has at least as many parts as are left of the first list. -/
theorem Run.cost_le {spent : Nat} {todo : List Pending} {f : Pending} {here : Spot}
    (h : t.Run cwd spent s todo place) (hf : f ∈ todo) (hhere : f.link = some here) :
    ∃ cost mid, t.LinkLeads cwd here cost mid ∧ spent ≤ cost := by
  induction todo generalizing spent s with
  | nil => exact absurd hf List.not_mem_nil
  | cons g todo ih =>
    obtain ⟨n, mid, -, hlink, hrest⟩ := h
    rcases List.mem_cons.mp hf with rfl | hf
    · obtain ⟨cost, hleads, hcost⟩ := hlink here hhere
      exact ⟨cost, mid, hleads, by omega⟩
    · obtain ⟨cost, mid', hleads, hcost⟩ := ih hrest hf
      exact ⟨cost, mid', hleads, by omega⟩

/-- A link leads to one spot, and one way. -/
theorem LinkLeads.unique {here : Spot} {cost cost' : Nat} (h : t.LinkLeads cwd here cost e)
    (h' : t.LinkLeads cwd here cost' e') : cost = cost' ∧ e = e' := by
  obtain ⟨dir, name, target, rfl, hlook, hleads⟩ := h
  obtain ⟨dir', name', target', heq, hlook', hleads'⟩ := h'
  obtain ⟨rfl, -⟩ := Spot.enter_inj heq
  rw [hlook, Option.some.injEq, Entry.link.injEq] at hlook'
  subst hlook'
  exact hleads.unique hleads'

/-- Following a link is following its target and then what is left. -/
theorem Follows.through {target : String} {parts : List String} (hname : Path.IsName name)
    (hlook : t.look cwd (s.enter name) = some (.link target))
    (h : t.Follows cwd n s (name :: parts) e) :
    ∃ k m mid, n = k + m + 1 ∧ t.LinkLeads cwd (s.enter name) k mid ∧
      t.Follows cwd k (s.start target) (Path.parts target) mid ∧ t.Follows cwd m mid parts e := by
  obtain ⟨n', rfl, hfollows⟩ := h.of_link hname hlook
  obtain ⟨k, m, mid, rfl, htarget, hrest⟩ := hfollows.split
  exact ⟨k, m, mid, rfl, ⟨s, name, target, rfl, hlook, htarget⟩, htarget, hrest⟩

/-! ### Links that have been met -/

/-- What is known of links is right: a link with a spot leads there, and any other is being
followed. -/
structure SeenSound (t : FileTree) (cwd : Location) (seen : SeenLinks) (todo : List Pending) :
    Prop where
  resolved : ∀ here e, seen.get? here = some (some e) → ∃ cost, t.LinkLeads cwd here cost e
  pending : ∀ here, seen.get? here = some none → ∃ f ∈ todo, f.link = some here

theorem SeenLinks.get?_cons (l here : Spot) (p : Option Spot) (seen : SeenLinks) :
    SeenLinks.get? here ((l, p) :: seen) = if l = here then some p else seen.get? here := rfl

/-- The first list of parts may change, if it stands for the same link. -/
theorem SeenSound.exchange {seen : SeenLinks} {parts parts' : List String} {link : Option Spot}
    {todo : List Pending} (h : t.SeenSound cwd seen (⟨parts, link⟩ :: todo)) :
    t.SeenSound cwd seen (⟨parts', link⟩ :: todo) := by
  refine ⟨h.resolved, fun here hhere => ?_⟩
  obtain ⟨f, hf, hlink⟩ := h.pending here hhere
  rcases List.mem_cons.mp hf with rfl | hf
  · exact ⟨⟨parts', link⟩, List.mem_cons_self, hlink⟩
  · exact ⟨f, List.mem_cons_of_mem _ hf, hlink⟩

/-- The first list of parts may end, once what is known says where its link leads. -/
theorem SeenSound.finish {seen : SeenLinks} {todo : List Pending} {l : Spot} {cost : Nat}
    (h : t.SeenSound cwd seen (⟨[], some l⟩ :: todo)) (hleads : t.LinkLeads cwd l cost s) :
    t.SeenSound cwd ((l, some s) :: seen) todo := by
  constructor
  · intro here e hhere
    rw [SeenLinks.get?_cons] at hhere
    split at hhere
    · next heq =>
      rw [Option.some.injEq, Option.some.injEq] at hhere
      exact ⟨cost, heq ▸ hhere ▸ hleads⟩
    · exact h.resolved here e hhere
  · intro here hhere
    rw [SeenLinks.get?_cons] at hhere
    split at hhere
    · cases hhere
    · next hne =>
      obtain ⟨f, hf, hlink⟩ := h.pending here hhere
      rcases List.mem_cons.mp hf with rfl | hf
      · exact absurd (Option.some.inj hlink) hne
      · exact ⟨f, hf, hlink⟩

/-- A link that is met for the first time is being followed from then on. -/
theorem SeenSound.begin {seen : SeenLinks} {todo : List Pending} (h : t.SeenSound cwd seen todo)
    (here : Spot) (parts : List String) :
    t.SeenSound cwd ((here, none) :: seen) (⟨parts, some here⟩ :: todo) := by
  constructor
  · intro here' e hhere
    rw [SeenLinks.get?_cons] at hhere
    split at hhere
    · cases hhere
    · exact h.resolved here' e hhere
  · intro here' hhere
    rw [SeenLinks.get?_cons] at hhere
    split at hhere
    · next heq => exact ⟨_, List.mem_cons_self, congrArg some heq⟩
    · obtain ⟨f, hf, hlink⟩ := h.pending here' hhere
      exact ⟨f, List.mem_cons_of_mem _ hf, hlink⟩

/-- All ways to begin the path of a spot that is not too long. -/
def spellings : List (Option Nat) := none :: (List.range (maxPathLength + 2)).map some

/-- The spots of all entries, each in every spelling. -/
def spots (t : FileTree) : List Spot :=
  t.entries.flatMap fun entry => spellings.map fun ups => ⟨ups, entry.1⟩

/-- How many spots have not been met. -/
def unseen (t : FileTree) (seen : SeenLinks) : Nat :=
  t.spots.countP fun s => (seen.get? s).isNone

theorem length_spots (t : FileTree) : t.spots.length = t.entries.length * maxSpellings := by
  have hspellings : spellings.length = maxSpellings := by
    rw [spellings, List.length_cons, List.length_map, List.length_range, maxSpellings]
  rw [spots, List.length_flatMap]
  simp [hspellings]

theorem mem_of_find? {entries : List (Location × Entry)} {entry : Entry}
    (h : find? loc entries = some entry) : (loc, entry) ∈ entries := by
  induction entries with
  | nil => cases h
  | cons first rest ih =>
    obtain ⟨l, entry'⟩ := first
    rw [find?] at h
    split at h
    · next heq =>
      rw [Option.some.injEq] at h
      exact heq ▸ h ▸ List.mem_cons_self
    · exact List.mem_cons_of_mem _ (ih h)

theorem mem_entries_of_entryAt? {entry : Entry} (h : t.entryAt? loc = some entry) (hne : loc ≠ []) :
    (loc, entry) ∈ t.entries := by
  rw [entryAt?, if_neg hne] at h
  exact mem_of_find? h

/-- What can be looked at is at one of the spots. -/
theorem mem_spots_of_look {entry : Entry} (h : t.look cwd s = some entry) (hne : s.loc ≠ []) :
    s ∈ t.spots := by
  obtain ⟨hfits, hentry⟩ := look_eq_some_iff.mp h
  have hspelling : s.ups ∈ spellings := by
    cases hups : s.ups with
    | none => exact List.mem_cons_self
    | some n =>
      exact List.mem_cons_of_mem _ (List.mem_map_of_mem (List.mem_range.mpr (Spot.ups_le hups hfits)))
  exact List.mem_flatMap.mpr ⟨_, mem_entries_of_entryAt? hentry hne,
    List.mem_map.mpr ⟨s.ups, hspelling, rfl⟩⟩

theorem isNone_of_isNone_cons {seen : SeenLinks} {l here : Spot} {p : Option Spot}
    (h : (SeenLinks.get? here ((l, p) :: seen)).isNone = true) : (seen.get? here).isNone = true := by
  rw [SeenLinks.get?_cons] at h
  split at h
  · cases h
  · exact h

theorem unseen_cons_le (seen : SeenLinks) (l : Spot) (p : Option Spot) :
    t.unseen ((l, p) :: seen) ≤ t.unseen seen :=
  List.countP_mono_left fun _ _ => isNone_of_isNone_cons

/-- Meeting a link leaves fewer to meet. -/
theorem unseen_cons_lt {seen : SeenLinks} {here : Spot} (p : Option Spot)
    (hmem : here ∈ t.spots) (hnew : seen.get? here = none) :
    t.unseen ((here, p) :: seen) < t.unseen seen := by
  obtain ⟨before, after, hspots⟩ := List.append_of_mem hmem
  have hmono : ∀ spots : List Spot,
      spots.countP (fun s => (SeenLinks.get? s ((here, p) :: seen)).isNone) ≤
        spots.countP fun s => (seen.get? s).isNone :=
    fun spots => List.countP_mono_left fun _ _ => isNone_of_isNone_cons
  have hmet : (SeenLinks.get? here ((here, p) :: seen)).isNone = false := by
    rw [SeenLinks.get?_cons, if_pos rfl]
    rfl
  rw [unseen, unseen, hspots, List.countP_append, List.countP_append,
    List.countP_cons_of_neg (by simp only [hmet, Bool.false_eq_true, not_false_iff]),
    List.countP_cons_of_pos (by rw [hnew]; rfl)]
  have hbefore := hmono before
  have hafter := hmono after
  omega

/-! ### Resolving -/

/-- What can be followed to the end is resolved to its end. -/
theorem resolveFrom_eq_ok {links : Nat} {seen : SeenLinks} {todo : List Pending}
    (hrun : t.Run cwd 0 s todo place) (hseen : t.SeenSound cwd seen todo)
    (hlinks : t.unseen seen < links) : t.resolveFrom cwd links seen s todo = .ok place := by
  fun_induction resolveFrom t cwd links seen s todo with
  | case1 links seen s => exact congrArg Except.ok hrun
  | case2 links seen s todo ih =>
    obtain ⟨n, mid, hparts, -, hrest⟩ := hrun
    cases hparts
    refine ih hrest ⟨hseen.resolved, fun here hhere => ?_⟩ hlinks
    obtain ⟨f, hf, hlink⟩ := hseen.pending here hhere
    rcases List.mem_cons.mp hf with rfl | hf
    · cases hlink
    · exact ⟨f, hf, hlink⟩
  | case3 links seen s todo l ih =>
    obtain ⟨n, mid, hparts, hlink, hrest⟩ := hrun
    cases hparts
    obtain ⟨cost, hleads, -⟩ := hlink l rfl
    exact ih hrest (hseen.finish hleads) ((unseen_cons_le seen l _).trans_lt hlinks)
  | case4 links seen s name parts link todo hidle ih =>
    refine ih (hrun.exchange fun n mid h => ?_) hseen.exchange hlinks
    obtain ⟨m, rfl, hrest⟩ := h.of_idle hidle
    exact ⟨m, Nat.le_succ m, hrest⟩
  | case5 links seen s parts link todo hidle ih =>
    refine ih (hrun.exchange fun n mid h => ?_) hseen.exchange hlinks
    obtain ⟨m, rfl, hrest⟩ := h.of_up
    exact ⟨m, Nat.le_succ m, hrest⟩
  | case6 links seen s name parts link todo hidle hup hpass next target hlook mid hmet ih =>
    -- the link has been followed before
    have hname : Path.IsName name := Path.isName_of_not_idle hidle hup
    refine ih (hrun.exchange fun n mid' h => ?_) hseen.exchange hlinks
    obtain ⟨k, m, mid'', rfl, hleads, -, hrest⟩ := h.through hname hlook
    obtain ⟨cost, hleads'⟩ := hseen.resolved next mid hmet
    exact ⟨m, by omega, (hleads'.unique hleads).2 ▸ hrest⟩
  | case7 links seen s name parts link todo hidle hup hpass next target hlook hmet =>
    -- the link is being followed, so more of it would be left than there is
    have hname : Path.IsName name := Path.isName_of_not_idle hidle hup
    exfalso
    obtain ⟨f, hf, hlink⟩ := hseen.pending next hmet
    obtain ⟨n, mid, hparts, hfirst, hrest⟩ := hrun
    obtain ⟨k, m, mid', rfl, hleads, -, -⟩ := hparts.through hname hlook
    rcases List.mem_cons.mp hf with rfl | hf
    · obtain ⟨cost, hleads', hcost⟩ := hfirst next hlink
      have hsame := (hleads.unique hleads').1
      omega
    · obtain ⟨cost, mid'', hleads', hcost⟩ := hrest.cost_le hf hlink
      have hsame := (hleads.unique hleads').1
      omega
  | case8 seen s name parts link todo hidle hup hpass next target hlook hmet =>
    exact absurd hlinks (Nat.not_lt_zero _)
  | case9 seen s name parts link todo hidle hup hpass next target hlook hmet links ih =>
    have hname : Path.IsName name := Path.isName_of_not_idle hidle hup
    have hmem : next ∈ t.spots := mem_spots_of_look hlook (by simp [next])
    obtain ⟨n, mid, hparts, hlink, hrest⟩ := hrun
    obtain ⟨k, m, mid', rfl, hleads, htarget, hparts'⟩ := hparts.through hname hlook
    refine ih ⟨k, mid', htarget, ?_, m, mid, hparts', ?_, hrest.mono (by omega)⟩
      (hseen.exchange.begin next _) ?_
    · rintro _ ⟨⟩
      exact ⟨k, hleads, by omega⟩
    · intro here' hhere
      obtain ⟨cost, hleads', hcost⟩ := hlink here' hhere
      exact ⟨cost, hleads', by omega⟩
    · have hfewer := unseen_cons_lt none hmem hmet
      omega
  | case10 links seen s name parts link todo hidle hup hpass next hlook ih =>
    have hname : Path.IsName name := Path.isName_of_not_idle hidle hup
    refine ih (hrun.exchange fun n mid h => ?_) hseen.exchange hlinks
    obtain ⟨m, rfl, hrest⟩ := h.of_enter hname hlook
    exact ⟨m, Nat.le_succ m, hrest⟩
  | case11 links seen s name parts link todo hidle hup hrefused =>
    have hname : Path.IsName name := Path.isName_of_not_idle hidle hup
    obtain ⟨n, mid, hparts, -⟩ := hrun
    exact absurd (hparts.isPassable hname) hrefused

/-- **A path that can be followed to the end is resolved to its end.** -/
theorem resolve_eq_ok {path : String} (h : t.StandsFor cwd path place) :
    t.resolve cwd path = .ok place := by
  obtain ⟨n, e, h, rfl⟩ := h
  have hseen : t.SeenSound cwd [] [⟨Path.parts path, none⟩] := by
    constructor
    · intro here place hhere
      cases hhere
    · intro here hhere
      cases hhere
  have hrun : t.Run cwd 0 ((Spot.here cwd).start path) [⟨Path.parts path, none⟩] e.loc :=
    ⟨n, e, h, fun _ hhere => (Option.not_mem_none _ hhere).elim, rfl⟩
  refine resolveFrom_eq_ok hrun hseen (Nat.lt_succ_of_le ?_)
  rw [← length_spots]
  exact List.countP_le_length

/-! ### From far up -/

/-- Steps up are taken one by one, and written. -/
theorem resolveFrom_ups {links : Nat} {seen : SeenLinks} (n k : Nat) (parts : List String)
    (link : Option Spot) (todo : List Pending) :
    t.resolveFrom cwd links seen ⟨some k, cwd.take (cwd.length - k)⟩
        (⟨List.replicate n ".." ++ parts, link⟩ :: todo) =
      t.resolveFrom cwd links seen ⟨some (k + n), cwd.take (cwd.length - (k + n))⟩
        (⟨parts, link⟩ :: todo) := by
  induction n generalizing k with
  | zero => rfl
  | succ n ih =>
    have hleave : Spot.leave cwd ⟨some k, cwd.take (cwd.length - k)⟩ =
        ⟨some (k + 1), cwd.take (cwd.length - (k + 1))⟩ := by
      rw [Spot.leave, Option.map_some, if_pos (List.length_take_le _ _), List.dropLast_eq_take,
        List.take_take, List.length_take]
      congr 2
      omega
    rw [List.replicate_succ, List.cons_append, resolveFrom, if_neg (by decide), if_pos rfl, hleave, ih,
      Nat.add_right_comm, Nat.add_assoc]

/-- Behind too many steps up nothing can be looked at, so every name is kept. -/
theorem resolveFrom_far {links : Nat} {seen : SeenLinks} {names : Location}
    (hfar : maxPathLength + 2 ≤ n) (hnames : names.Named) :
    t.resolveFrom cwd links seen ⟨some n, loc⟩ [⟨names, none⟩] = .ok (loc ++ names) := by
  induction names generalizing loc with
  | nil => simp [resolveFrom]
  | cons name names ih =>
    obtain ⟨hname, -, hpass⟩ := hnames name List.mem_cons_self
    have hlook : t.look cwd (Spot.enter ⟨some n, loc⟩ name) = none :=
      if_neg fun hfits => absurd (Spot.ups_le rfl hfits) (Nat.not_lt.mpr hfar)
    rw [resolveFrom, if_neg hname.not_idle, if_neg hname.2.2, if_pos hpass]
    simp only [hlook]
    rw [Spot.enter, ih fun name' h => hnames name' (List.mem_cons_of_mem _ h), List.append_assoc]
    rfl

/-- **Behind too many steps up no link is followed**, however short the path of the place may be that
they lead to. -/
theorem resolve_of_far_up (t : FileTree) (cwd : Location) {names : Location}
    (hfar : maxPathLength + 2 ≤ n) (hnames : names.Named) :
    t.resolve cwd (Path.ofParts (List.replicate n ".." ++ names)) =
      .ok (cwd.take (cwd.length - n) ++ names) := by
  have hne : List.replicate n ".." ++ names ≠ [] := by
    rw [maxPathLength] at hfar
    exact List.append_ne_nil_of_left_ne_nil (by simp; omega) _
  have hslash := hnames.slash_not_mem n
  have hstart : (Spot.here cwd).start (Path.ofParts (List.replicate n ".." ++ names)) =
      ⟨some 0, cwd.take (cwd.length - 0)⟩ := by
    rw [Spot.start, Path.isAbsolute_ofParts hne hslash (hnames.goesUpThenDown n).empty_not_mem,
      if_neg Bool.false_ne_true, Nat.sub_zero, List.take_length]
    rfl
  rw [resolve, Path.parts_ofParts hne hslash, hstart, resolveFrom_ups, Nat.zero_add,
    resolveFrom_far hfar hnames]

/-! ### Opening, part by part -/

section Parts

variable {followLast : Bool} {links : Nat} {target : String} {entry : Entry}

theorem locateFrom_idle (hdir : t.entryAt? loc = some .directory) (hidle : name = "" ∨ name = ".") :
    t.locateFrom followLast links loc (name :: todo) = t.locateFrom followLast links loc todo := by
  rw [locateFrom, hdir]
  exact if_pos hidle

theorem locateFrom_up (hdir : t.entryAt? loc = some .directory) :
    t.locateFrom followLast links loc (".." :: todo) =
      t.locateFrom followLast links loc.dropLast todo := by
  rw [locateFrom, hdir]
  simp

theorem locateFrom_of_not_directory (hdir : t.entryAt? loc ≠ some .directory) :
    t.locateFrom followLast links loc (name :: todo) = .error .notDirectory := by
  rw [locateFrom]
  split
  · next hentry => exact absurd hentry hdir
  · rfl

variable (hdir : t.entryAt? loc = some .directory) (hidle : ¬ (name = "" ∨ name = "."))
  (hup : ¬ name = "..")

include hdir hidle hup

theorem locateFrom_long (hlong : maxNameLength < (Text.nameBytes name).length) :
    t.locateFrom followLast links loc (name :: todo) = .error .nameTooLong := by
  rw [locateFrom, hdir]
  simp only [if_neg hidle, if_neg hup, if_pos hlong]

variable (hshort : ¬ maxNameLength < (Text.nameBytes name).length)

include hshort

theorem locateFrom_missing (hnone : t.entryAt? (loc ++ [name]) = none) :
    t.locateFrom followLast links loc (name :: todo) = .error .missing := by
  rw [locateFrom, hdir]
  simp only [if_neg hidle, if_neg hup, if_neg hshort, hnone]

/-- A link at the very end may be where a path leads. -/
theorem locateFrom_last (hlink : t.entryAt? (loc ++ [name]) = some (.link target))
    (hlast : (todo.isEmpty && !followLast) = true) :
    t.locateFrom followLast links loc (name :: todo) = .ok (loc ++ [name]) := by
  rw [locateFrom, hdir]
  simp only [if_neg hidle, if_neg hup, if_neg hshort, hlink, if_pos hlast]

theorem locateFrom_no_links (hlink : t.entryAt? (loc ++ [name]) = some (.link target))
    (hlast : ¬ (todo.isEmpty && !followLast) = true) :
    t.locateFrom followLast 0 loc (name :: todo) = .error .tooManyLinks := by
  rw [locateFrom, hdir]
  simp only [if_neg hidle, if_neg hup, if_neg hshort, hlink, if_neg hlast]

/-- Any other link is replaced by its target. -/
theorem locateFrom_link (hlink : t.entryAt? (loc ++ [name]) = some (.link target))
    (hlast : ¬ (todo.isEmpty && !followLast) = true) :
    t.locateFrom followLast (links + 1) loc (name :: todo) =
      t.locateFrom followLast links (loc.start target) (Path.parts target ++ todo) := by
  rw [locateFrom, hdir, Location.start]
  simp only [if_neg hidle, if_neg hup, if_neg hshort, hlink, if_neg hlast]

theorem locateFrom_enter (hentry : t.entryAt? (loc ++ [name]) = some entry)
    (hlink : ∀ target, entry ≠ .link target) :
    t.locateFrom followLast links loc (name :: todo) =
      t.locateFrom followLast links (loc ++ [name]) todo := by
  rw [locateFrom, hdir]
  cases entry with
  | link target => exact absurd rfl (hlink target)
  | _ => simp only [if_neg hidle, if_neg hup, if_neg hshort, hentry]

end Parts

/-! ### Opening -/

/-- Opening along names on which no link stands leads where the names say. -/
theorem locateFrom_eq {names : List String} {followLast : Bool} {links : Nat}
    (h : t.IsPlace (loc ++ names)) (hfits : Fits (Location.toPath (loc ++ names)))
    (hopen : t.locateFrom followLast links loc names = .ok place) : place = loc ++ names := by
  induction names generalizing loc with
  | nil =>
    rw [locateFrom, Except.ok.injEq] at hopen
    rw [← hopen, List.append_nil]
  | cons name names ih =>
    rw [List.append_cons] at h hfits ⊢
    have hhere : t.IsPlace (loc ++ [name]) := h.above (List.prefix_append _ _)
    have hshort : Fits (Location.toPath (loc ++ [name])) :=
      (Location.length_toPath_le (List.prefix_append _ _)).trans hfits
    obtain ⟨hname, -, -⟩ := hhere.named name (by simp)
    rw [locateFrom] at hopen
    split at hopen
    · rw [if_neg hname.not_idle, if_neg hname.2.2] at hopen
      split at hopen
      · cases hopen
      split at hopen
      · cases hopen
      · next target hentry => exact absurd hentry (hhere.linkFree _ List.prefix_rfl hshort target)
      · exact ih h hfits hopen
    · cases hopen

/-- The parts of the path of a location. -/
theorem parts_toPath (h : loc.Named) (hne : loc ≠ []) :
    Path.parts (Location.toPath loc) = "" :: loc := by
  rw [Location.toPath, Path.parts_slash_append,
    Path.parts_ofParts hne fun name hname => (h name hname).2.1]

theorem isAbsolute_toPath (loc : Location) : Path.isAbsolute (Location.toPath loc) = true :=
  Path.isAbsolute_iff.mpr ⟨_, rfl⟩

/-- The path of a place stands for it. -/
theorem standsFor_toPath (h : t.IsPlace loc) (cwd : Location) :
    t.StandsFor cwd (Location.toPath loc) loc := by
  have hstart : (Spot.here cwd).start (Location.toPath loc) = ⟨none, []⟩ := by
    rw [Spot.start, if_pos (isAbsolute_toPath loc)]
  rw [StandsFor, hstart]
  by_cases hne : loc = []
  · subst hne
    exact ⟨2, _, .stay (.inl rfl) (.stay (.inl rfl) (.done _)), rfl⟩
  · rw [parts_toPath h.named hne]
    exact ⟨_, _, .stay (.inl rfl) (follows_names h), rfl⟩

theorem locateFrom_slash (t : FileTree) (followLast : Bool) (links : Nat) (todo : List String) :
    t.locateFrom followLast links [] ("" :: todo) = t.locateFrom followLast links [] todo := by
  rw [locateFrom, entryAt?_nil]
  simp

/-- A path that can be opened is not too long. -/
theorem fits_of_locate {followLast : Bool} {path : String}
    (h : t.locate cwd followLast path = .ok place) : Fits path := by
  rw [locate] at h
  split at h
  · cases h
  split at h
  · cases h
  split at h
  · cases h
  next hfits => exact Nat.not_lt.mp hfits

/-- Opening the path of a place leads to that place. -/
theorem eq_of_locate_toPath {followLast : Bool} (h : t.IsPlace loc)
    (hopen : t.locate cwd followLast (Location.toPath loc) = .ok place) : place = loc := by
  have hfits := fits_of_locate hopen
  rw [locate, isAbsolute_toPath, if_pos rfl] at hopen
  split at hopen
  · cases hopen
  split at hopen
  · cases hopen
  split at hopen
  · cases hopen
  by_cases hne : loc = []
  · subst hne
    have hparts : Path.parts (Location.toPath []) = ["", ""] := by decide
    rw [hparts, locateFrom_slash, locateFrom_slash, locateFrom] at hopen
    exact (Except.ok.inj hopen).symm
  · rw [parts_toPath h.named hne, locateFrom_slash] at hopen
    rw [← List.nil_append loc] at h hfits ⊢
    exact locateFrom_eq h hfits hopen

theorem read_eq_ok_iff {path : String} {c : Content} : t.read cwd path = .ok c ↔
    ∃ loc, t.locate cwd true path = .ok loc ∧ t.entryAt? loc = some (.file c) := by
  rw [read, bind_eq_ok_iff]
  refine exists_congr fun loc => and_congr_right fun _ => ?_
  split
  · next c' hentry => simp [pure_eq_ok_iff, hentry]
  · next hentry => simp [hentry]
  · next hentry _ => simpa using hentry c

/-- **What is read at a place stands at that place.** -/
theorem entryAt?_of_read {c : Content} (h : t.IsPlace loc)
    (hread : t.read cwd (Location.toPath loc) = .ok c) : t.entryAt? loc = some (.file c) := by
  obtain ⟨place, hopen, hentry⟩ := read_eq_ok_iff.mp hread
  exact eq_of_locate_toPath h hopen ▸ hentry

end FileTree

end RepoAudit
