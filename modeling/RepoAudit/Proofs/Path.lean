import Mathlib.Data.List.Basic
import RepoAudit.Path
import RepoAudit.Proofs.Text.Splitting
import RepoAudit.Text.Surrogate

/-!
# Paths part by part

What joining and normalizing do to the parts of a path.

* `mem_parts_iff`, `ofParts_parts`, `parts_ofParts`, `parts_append_slash` — parts and texts;
* `IsName` — a part that stands for itself;
* `nonEmptyParts_join`, `exists_parts_join` — the parts of a path continued by another;
* `mem_toList_join`, `mem_toList_normalize` — where its characters come from;
* `normalParts_shape`, `normalize_ofParts` — a normal form goes up first and then down, and never up
  from the root;
* `parts_normalize` — the parts of a normal form.
-/

namespace RepoAudit.Path

variable {a b p part : String} {ps : List String}

/-! ### Parts and texts -/

theorem toList_ofParts (ps : List String) :
    (ofParts ps).toList = Text.joinWith '/' (ps.map String.toList) := by
  rw [ofParts, String.toList_ofList]

theorem map_toList_parts (p : String) : (parts p).map String.toList = Text.splitOn '/' p.toList := by
  rw [parts, List.map_map]
  exact List.map_id'' (fun _ => String.toList_ofList) _

theorem mem_parts_iff : part ∈ parts p ↔ part.toList ∈ Text.splitOn '/' p.toList := by
  rw [← map_toList_parts, List.mem_map_of_injective fun _ _ => String.toList_injective]

theorem ofParts_parts (p : String) : ofParts (parts p) = p := by
  rw [ofParts, map_toList_parts, Text.joinWith_splitOn, String.ofList_toList]

/-- Parts hold no slash. -/
theorem slash_not_mem_of_mem_parts (h : part ∈ parts p) : '/' ∉ part.toList :=
  Text.not_mem_of_mem_splitOn (mem_parts_iff.mp h)

/-- The characters of a part are in the path. -/
theorem mem_toList_of_mem_parts {c : Char} (h : part ∈ parts p) (hc : c ∈ part.toList) :
    c ∈ p.toList :=
  Text.mem_of_mem_splitOn (mem_parts_iff.mp h) hc

theorem mem_toList_ofParts {c : Char} (h : c ∈ (ofParts ps).toList) :
    c = '/' ∨ ∃ part ∈ ps, c ∈ part.toList := by
  rw [toList_ofParts] at h
  rcases Text.mem_joinWith h with hslash | ⟨piece, hpiece, hc⟩
  · exact .inl hslash
  · obtain ⟨part, hpart, rfl⟩ := List.mem_map.mp hpiece
    exact .inr ⟨part, hpart, hc⟩

theorem mem_toList_ofParts_of_mem {c : Char} (h : part ∈ ps) (hc : c ∈ part.toList) :
    c ∈ (ofParts ps).toList := by
  rw [toList_ofParts]
  exact Text.mem_joinWith_of_mem (List.mem_map_of_mem h) hc

theorem ofParts_cons (part : String) {ps : List String} (h : ps ≠ []) :
    ofParts (part :: ps) = part ++ "/" ++ ofParts ps := by
  apply String.toList_inj.mp
  rw [toList_ofParts, String.toList_append, String.toList_append, toList_ofParts]
  cases ps with
  | nil => exact absurd rfl h
  | cons next rest => simp [Text.joinWith]

theorem ofParts_append {ps qs : List String} (hps : ps ≠ []) (hqs : qs ≠ []) :
    ofParts (ps ++ qs) = ofParts ps ++ "/" ++ ofParts qs := by
  induction ps with
  | nil => exact absurd rfl hps
  | cons part rest ih =>
    by_cases hrest : rest = []
    · subst hrest
      have hone : ofParts [part] = part := by simp [ofParts, Text.joinWith]
      rw [List.singleton_append, ofParts_cons part hqs, hone]
    · have hboth : rest ++ qs ≠ [] := by simp [hrest]
      rw [List.cons_append, ofParts_cons part hboth, ih hrest, ofParts_cons part hrest]
      simp only [String.append_assoc]

/-- There is a slash between any two parts. -/
theorem length_le_nameBytes_ofParts (ps : List String) :
    ps.length ≤ (Text.nameBytes (ofParts ps)).length + 1 := by
  induction ps with
  | nil => exact Nat.zero_le _
  | cons part rest ih =>
    by_cases hrest : rest = []
    · rw [hrest, List.length_singleton]
      exact Nat.succ_le_succ (Nat.zero_le _)
    · have hslash : (Text.nameBytes "/").length = 1 := by decide
      rw [ofParts_cons part hrest, Text.nameBytes_append, Text.nameBytes_append, List.length_append,
        List.length_append, List.length_cons, hslash]
      omega

/-- Parts without slashes come back. -/
theorem parts_ofParts (hne : ps ≠ []) (h : ∀ part ∈ ps, '/' ∉ part.toList) :
    parts (ofParts ps) = ps := by
  rw [parts, toList_ofParts, Text.splitOn_joinWith (by simpa using hne), List.map_map]
  · exact List.map_id'' (fun _ => String.ofList_toList) _
  · intro piece hpiece
    obtain ⟨part, hpart, rfl⟩ := List.mem_map.mp hpiece
    exact h part hpart

theorem parts_append_slash (a b : String) : parts (a ++ "/" ++ b) = parts a ++ parts b := by
  have htext : (a ++ "/" ++ b).toList = a.toList ++ '/' :: b.toList := by simp
  rw [parts, htext, Text.splitOn_append_cons, List.map_append, parts, parts]

theorem parts_empty : parts "" = [""] := rfl

theorem parts_slash_append (p : String) : parts ("/" ++ p) = "" :: parts p := by
  have hparts := parts_append_slash "" p
  rwa [String.empty_append, parts_empty] at hparts

theorem isAbsolute_iff : isAbsolute p = true ↔ ∃ rest, p = "/" ++ rest := by
  rw [isAbsolute, beq_iff_eq]
  constructor
  · intro h
    obtain ⟨rest, hrest⟩ : ∃ rest, p.toList = '/' :: rest := by
      cases hp : p.toList with
      | nil => rw [hp] at h; cases h
      | cons c rest =>
        rw [hp, List.head?_cons, Option.some.injEq] at h
        exact ⟨rest, by rw [h]⟩
    refine ⟨String.ofList rest, String.toList_inj.mp ?_⟩
    rw [hrest]
    simp
  · rintro ⟨rest, rfl⟩
    simp

theorem isAbsolute_of_slash_not_mem (h : '/' ∉ p.toList) : isAbsolute p = false := by
  rw [← Bool.not_eq_true, isAbsolute_iff]
  rintro ⟨rest, rfl⟩
  simp at h

/-! ### Continuing a path -/

/-- A continued path begins with what it continues. -/
theorem exists_join_eq (a : String) (hb : isAbsolute b = false) : ∃ rest, join a b = a ++ rest := by
  rw [join, hb, if_neg Bool.false_ne_true]
  split
  · exact ⟨b, rfl⟩
  · exact ⟨"/" ++ b, String.append_assoc⟩

/-- The parts of the continuation come last. -/
theorem exists_parts_join (a b : String) : ∃ before, parts (join a b) = before ++ parts b := by
  rw [join]
  split
  · exact ⟨[], rfl⟩
  split
  · next h =>
    rcases h with rfl | hlast
    · exact ⟨[], by rw [String.empty_append, List.nil_append]⟩
    · obtain ⟨front, hfront⟩ := List.getLast?_eq_some_iff.mp hlast
      have ha : a = String.ofList front ++ "/" := String.toList_inj.mp (by rw [hfront]; simp)
      exact ⟨parts (String.ofList front), by rw [ha, parts_append_slash]⟩
  · exact ⟨parts a, parts_append_slash a b⟩

/-- A text without slashes is a single part. -/
theorem parts_of_slash_not_mem (h : '/' ∉ p.toList) : parts p = [p] := by
  have hparts : parts (ofParts [p]) = [p] :=
    parts_ofParts (by simp) fun part hpart => List.mem_singleton.mp hpart ▸ h
  have hself : ofParts [p] = p := by simp [ofParts, Text.joinWith]
  rwa [hself] at hparts

theorem parts_ne_nil (p : String) : parts p ≠ [] := by
  intro hnil
  have hmap : (parts p).map String.toList = [] := by rw [hnil, List.map_nil]
  rw [map_toList_parts] at hmap
  exact Text.splitOn_ne_nil '/' p.toList hmap

/-- A path starts at the root when its first part is empty. -/
theorem isAbsolute_iff_head? (hne : p ≠ "") : isAbsolute p = true ↔ (parts p).head? = some "" := by
  constructor
  · intro h
    obtain ⟨rest, rfl⟩ := isAbsolute_iff.mp h
    rw [parts_slash_append, List.head?_cons]
  · intro h
    obtain ⟨rest, hrest⟩ := List.head?_eq_some_iff.mp h
    have hp : p = ofParts ("" :: rest) := by rw [← hrest, ofParts_parts]
    cases rest with
    | nil => exact absurd hp hne
    | cons part rest =>
      rw [hp, isAbsolute, toList_ofParts]
      rfl

section NonEmpty

variable (hne : ps ≠ []) (hslash : ∀ part ∈ ps, '/' ∉ part.toList) (hpart : "" ∉ ps)

include hne hslash hpart

theorem ofParts_ne_empty : ofParts ps ≠ "" := by
  intro hempty
  have hparts := parts_ofParts hne hslash
  rw [hempty, parts_empty] at hparts
  exact hpart (hparts ▸ List.mem_cons_self)

theorem isAbsolute_ofParts : isAbsolute (ofParts ps) = false := by
  rw [← Bool.not_eq_true, isAbsolute_iff_head? (ofParts_ne_empty hne hslash hpart),
    parts_ofParts hne hslash]
  exact fun hhead => hpart (List.mem_of_mem_head? hhead)

end NonEmpty

/-- A path continued by a name has that name for its last part, and the parts of the path before it,
except for the empty one behind a slash at its end. -/
theorem parts_join_name (ha : a ≠ "") (hb : '/' ∉ b.toList) :
    ∃ before, parts (join a b) = before ++ [b] ∧ (parts a = before ∨ parts a = before ++ [""]) := by
  rw [join, isAbsolute_of_slash_not_mem hb, if_neg Bool.false_ne_true]
  split
  · next h =>
    obtain ⟨front, hfront⟩ := List.getLast?_eq_some_iff.mp (h.resolve_left ha)
    have hslash : a = String.ofList front ++ "/" ++ "" := String.toList_inj.mp (by rw [hfront]; simp)
    refine ⟨parts (String.ofList front), ?_, .inr ?_⟩
    · rw [hslash, String.append_empty, parts_append_slash, parts_of_slash_not_mem hb]
    · rw [hslash, parts_append_slash, parts_empty]
  · exact ⟨parts a, by rw [parts_append_slash, parts_of_slash_not_mem hb], .inl rfl⟩

theorem join_ofParts (hne : ps ≠ []) (hslash : ∀ part ∈ ps, '/' ∉ part.toList) (hpart : "" ∉ ps)
    (hb : '/' ∉ b.toList) : join (ofParts ps) b = ofParts (ps ++ [b]) := by
  obtain ⟨before, hjoin, hparts⟩ := parts_join_name (ofParts_ne_empty hne hslash hpart) hb
  rw [parts_ofParts hne hslash] at hparts
  rcases hparts with rfl | rfl
  · rw [← hjoin, ofParts_parts]
  · exact absurd (List.mem_append_right _ List.mem_cons_self) hpart

/-- The parts of a continued path are those of both, empty ones aside. -/
theorem nonEmptyParts_join (a : String) (hb : isAbsolute b = false) :
    nonEmptyParts (join a b) = nonEmptyParts a ++ nonEmptyParts b := by
  rw [join, hb, if_neg Bool.false_ne_true]
  split
  · next h =>
    rcases h with rfl | hlast
    · rw [String.empty_append]
      rfl
    · obtain ⟨front, hfront⟩ := List.getLast?_eq_some_iff.mp hlast
      have ha : a = String.ofList front ++ "/" := String.toList_inj.mp (by rw [hfront]; simp)
      have hparts : parts a = parts (String.ofList front) ++ [""] := by
        have hparts := parts_append_slash (String.ofList front) ""
        rwa [String.append_empty, ← ha, parts_empty] at hparts
      rw [nonEmptyParts, nonEmptyParts, nonEmptyParts, hparts, ha, parts_append_slash]
      simp
  · rw [nonEmptyParts, parts_append_slash, List.filter_append, nonEmptyParts, nonEmptyParts]

theorem isAbsolute_join (ha : isAbsolute a = true) (b : String) : isAbsolute (join a b) = true := by
  obtain ⟨rest, rfl⟩ := isAbsolute_iff.mp ha
  rw [join]
  split
  · assumption
  split
  · exact isAbsolute_iff.mpr ⟨rest ++ b, String.append_assoc⟩
  · exact isAbsolute_iff.mpr ⟨rest ++ "/" ++ b, by simp [String.append_assoc]⟩

/-- The characters of a continued path are those of both, slashes aside. -/
theorem mem_toList_join {c : Char} (h : c ∈ (join a b).toList) :
    c = '/' ∨ c ∈ a.toList ∨ c ∈ b.toList := by
  rw [join] at h
  split at h
  · exact .inr (.inr h)
  split at h
  · rw [String.toList_append, List.mem_append] at h
    exact .inr h
  · rw [String.toList_append, String.toList_append, List.mem_append, List.mem_append] at h
    rcases h with (ha | hslash) | hb
    · exact .inr (.inl ha)
    · exact .inl (List.mem_singleton.mp hslash)
    · exact .inr (.inr hb)

/-! ### Normal forms -/

/-- A part that stands for itself. -/
def IsName (part : String) : Prop := part ≠ "" ∧ part ≠ "." ∧ part ≠ ".."

instance (part : String) : Decidable (IsName part) :=
  inferInstanceAs (Decidable (part ≠ "" ∧ part ≠ "." ∧ part ≠ ".."))

theorem IsName.not_idle (h : IsName part) : ¬ (part = "" ∨ part = ".") := not_or.mpr ⟨h.1, h.2.1⟩

theorem isName_of_not_idle (hidle : ¬ (part = "" ∨ part = ".")) (hup : part ≠ "..") : IsName part :=
  ⟨fun hempty => hidle (.inl hempty), fun hpoint => hidle (.inr hpoint), hup⟩

theorem part_cases (part : String) : (part = "" ∨ part = ".") ∨ part = ".." ∨ IsName part := by
  by_cases hidle : part = "" ∨ part = "."
  · exact .inl hidle
  · by_cases hup : part = ".."
    · exact .inr (.inl hup)
    · exact .inr (.inr (isName_of_not_idle hidle hup))

theorem pushPart_of_isName (h : IsName part) (absolute : Bool) (done : List String) :
    pushPart absolute done part = part :: done := by
  simp [pushPart, h.1, h.2.1, h.2.2]

theorem pushPart_of_idle (h : part = "" ∨ part = ".") (absolute : Bool) (done : List String) :
    pushPart absolute done part = done := by
  simp [pushPart, h]

theorem pushPart_up_nil (absolute : Bool) :
    pushPart absolute [] ".." = if absolute then [] else [".."] := by
  simp [pushPart]

theorem pushPart_up_cons (absolute : Bool) (last : String) (done : List String) :
    pushPart absolute (last :: done) ".." = if last = ".." then ".." :: last :: done else done := by
  simp [pushPart]

/-- The parts of a path that are not idle. -/
def plainParts (p : String) : List String := (parts p).filter fun part => part ≠ "" ∧ part ≠ "."

/-- Names are added one by one, and what adds nothing can be left out. -/
theorem foldl_pushPart {names : List String} (hnames : ∀ name ∈ names, IsName name)
    (h : ps.filter (fun part => part ≠ "" ∧ part ≠ ".") = names) (absolute : Bool)
    (done : List String) : ps.foldl (pushPart absolute) done = names.reverse ++ done := by
  induction ps generalizing names done with
  | nil =>
    subst h
    rfl
  | cons part rest ih =>
    rw [List.foldl_cons]
    by_cases hidle : part = "" ∨ part = "."
    · rw [List.filter_cons_of_neg (by simpa [not_or, or_iff_not_imp_left] using hidle)] at h
      rw [pushPart_of_idle hidle, ih hnames h]
    · rw [not_or] at hidle
      rw [List.filter_cons_of_pos (by simpa using hidle)] at h
      subst h
      have hpart := hnames part List.mem_cons_self
      rw [pushPart_of_isName hpart, ih (fun name h => hnames name (List.mem_cons_of_mem _ h)) rfl]
      simp

/-- The normal form of a path without steps up. -/
theorem normalParts_eq {names : List String} (hnames : ∀ name ∈ names, IsName name)
    (h : plainParts p = names) : normalParts p = names := by
  rw [normalParts, foldl_pushPart hnames h, List.append_nil, List.reverse_reverse]

theorem plainParts_eq_filter (p : String) :
    plainParts p = (nonEmptyParts p).filter (· ≠ ".") := by
  rw [plainParts, nonEmptyParts, List.filter_filter]
  exact List.filter_congr fun part _ => by simp [Bool.and_comm]

/-- The plain parts of a continued path are those of both. -/
theorem plainParts_join (a : String) (hb : isAbsolute b = false) :
    plainParts (join a b) = plainParts a ++ plainParts b := by
  simp only [plainParts_eq_filter, nonEmptyParts_join a hb, List.filter_append]

/-- Parts that go up first and then down; from the root they do not go up. -/
def GoesUpThenDown (absolute : Bool) (ps : List String) : Prop :=
  ∃ ups names, ps = List.replicate ups ".." ++ names ∧ (∀ name ∈ names, IsName name) ∧
    (absolute = true → ups = 0)

theorem goesUpThenDown_pushPart {absolute : Bool} {done : List String}
    (h : GoesUpThenDown absolute done.reverse) (part : String) :
    GoesUpThenDown absolute (pushPart absolute done part).reverse := by
  obtain ⟨ups, names, hdone, hnames, hups⟩ := h
  rw [List.reverse_eq_iff, List.reverse_append, List.reverse_replicate] at hdone
  rcases part_cases part with hidle | rfl | hname
  · rw [pushPart_of_idle hidle]
    exact ⟨ups, names, by simp [hdone], hnames, hups⟩
  · cases hlast : names.reverse with
    | cons last before =>
      -- the last name is taken back
      have hmem : ∀ n ∈ last :: before, IsName n := fun n hn =>
        hnames n (List.mem_reverse.mp (hlast ▸ hn))
      rw [hdone, hlast, List.cons_append, pushPart_up_cons,
        if_neg (hmem last List.mem_cons_self).2.2]
      exact ⟨ups, before.reverse, by simp,
        fun n hn => hmem n (List.mem_cons_of_mem _ (List.mem_reverse.mp hn)), hups⟩
    | nil =>
      rw [hlast, List.nil_append] at hdone
      subst hdone
      cases ups with
      | succ ups =>
        rw [List.replicate_succ, pushPart_up_cons, if_pos rfl]
        refine ⟨ups + 2, [], ?_, by simp, fun h => absurd (hups h) (by simp)⟩
        rw [List.append_nil, List.reverse_eq_iff, List.reverse_replicate]
        rfl
      | zero =>
        rw [List.replicate_zero, pushPart_up_nil]
        split
        · exact ⟨0, [], rfl, by simp, fun _ => rfl⟩
        · next hrelative => exact ⟨1, [], rfl, by simp, fun h => absurd h hrelative⟩
  · rw [pushPart_of_isName hname]
    refine ⟨ups, names ++ [part], by simp [hdone], fun n hn => ?_, hups⟩
    rcases List.mem_append.mp hn with hold | hnew
    · exact hnames n hold
    · exact List.mem_singleton.mp hnew ▸ hname

theorem normalParts_shape (p : String) : GoesUpThenDown (isAbsolute p) (normalParts p) := by
  have hfold : ∀ (ps done : List String), GoesUpThenDown (isAbsolute p) done.reverse →
      GoesUpThenDown (isAbsolute p) (ps.foldl (pushPart (isAbsolute p)) done).reverse := by
    intro ps
    induction ps with
    | nil => exact fun done h => h
    | cons part rest ih => exact fun done h => ih _ (goesUpThenDown_pushPart h part)
  exact hfold (parts p) [] ⟨0, [], rfl, by simp, fun _ => rfl⟩

theorem GoesUpThenDown.empty_not_mem {absolute : Bool} (h : GoesUpThenDown absolute ps) : "" ∉ ps := by
  obtain ⟨ups, names, rfl, hnames, -⟩ := h
  intro hmem
  rcases List.mem_append.mp hmem with hup | hname
  · exact absurd (List.eq_of_mem_replicate hup) (by decide)
  · exact (hnames "" hname).1 rfl

theorem ne_empty_of_mem_normalParts (h : part ∈ normalParts p) : part ≠ "" := by
  rintro rfl
  exact (normalParts_shape p).empty_not_mem h

theorem mem_pushPart {absolute : Bool} {done : List String} {x : String}
    (h : x ∈ pushPart absolute done part) : x ∈ done ∨ x = part := by
  rcases part_cases part with hidle | rfl | hname
  · rw [pushPart_of_idle hidle] at h
    exact .inl h
  · cases done with
    | nil =>
      rw [pushPart_up_nil] at h
      split at h
      · exact absurd h List.not_mem_nil
      · exact .inr (List.mem_singleton.mp h)
    | cons last rest =>
      rw [pushPart_up_cons] at h
      split at h
      · rcases List.mem_cons.mp h with hx | hx
        · exact .inr hx
        · exact .inl hx
      · exact .inl (List.mem_cons_of_mem _ h)
  · rw [pushPart_of_isName hname] at h
    rcases List.mem_cons.mp h with hx | hx
    · exact .inr hx
    · exact .inl hx

/-- The parts of a normal form are parts of the path. -/
theorem mem_parts_of_mem_normalParts (h : part ∈ normalParts p) : part ∈ parts p := by
  have hfold : ∀ (ps done : List String), part ∈ ps.foldl (pushPart (isAbsolute p)) done →
      part ∈ done ∨ part ∈ ps := by
    intro ps
    induction ps with
    | nil => exact fun done h => .inl h
    | cons q rest ih =>
      intro done h
      rcases ih _ h with hdone | hrest
      · rcases mem_pushPart hdone with hold | rfl
        · exact .inl hold
        · exact .inr List.mem_cons_self
      · exact .inr (List.mem_cons_of_mem _ hrest)
  rcases hfold (parts p) [] (List.mem_reverse.mp h) with hnil | hparts
  · exact absurd hnil List.not_mem_nil
  · exact hparts

theorem leading_of_isAbsolute (h : isAbsolute p = true) : leading p = "/" ∨ leading p = "//" := by
  obtain ⟨rest, rfl⟩ := isAbsolute_iff.mp h
  have htext : ("/" ++ rest).toList = '/' :: rest.toList := by simp
  rw [leading, htext]
  split
  · exact .inl rfl
  · exact .inr rfl
  · exact .inl rfl
  · next hnone => exact absurd rfl (hnone _)

theorem leading_of_relative (h : isAbsolute p = false) : leading p = "" := by
  rw [isAbsolute, beq_eq_false_iff_ne] at h
  rw [leading]
  split
  · next hp => exact absurd (by rw [hp]; rfl) h
  · next hp => exact absurd (by rw [hp]; rfl) h
  · next hp => exact absurd (by rw [hp]; rfl) h
  · rfl

theorem isAbsolute_normalize (h : isAbsolute p = true) : isAbsolute (normalize p) = true := by
  rw [normalize]
  rcases leading_of_isAbsolute h with hlead | hlead
  · rw [hlead, if_neg (by simp)]
    exact isAbsolute_iff.mpr ⟨_, rfl⟩
  · rw [hlead, if_neg (by simp)]
    exact isAbsolute_iff.mpr ⟨"/" ++ ofParts (normalParts p), by rw [← String.append_assoc]; rfl⟩

/-- The characters of a normal form are those of its parts, slashes and a point aside. -/
theorem mem_toList_normalize {c : Char} (h : c ∈ (normalize p).toList) :
    c = '/' ∨ c = '.' ∨ ∃ part ∈ normalParts p, c ∈ part.toList := by
  rw [normalize] at h
  split at h
  · exact .inr (.inl (List.mem_singleton.mp h))
  rw [String.toList_append, List.mem_append] at h
  rcases h with hlead | hc
  · cases habsolute : isAbsolute p with
    | false =>
      rw [leading_of_relative habsolute] at hlead
      exact absurd hlead List.not_mem_nil
    | true =>
      rcases leading_of_isAbsolute habsolute with heq | heq <;> rw [heq] at hlead <;>
        exact .inl (by simpa using hlead)
  · rcases mem_toList_ofParts hc with hslash | hpart
    · exact .inl hslash
    · exact .inr (.inr hpart)

/-- A name stays when no step up follows it. -/
theorem mem_normalParts {before after : List String} {name : String} (hname : IsName name)
    (hafter : ".." ∉ after) (h : parts p = before ++ name :: after) : name ∈ normalParts p := by
  have hkept : ∀ (ps done : List String), ".." ∉ ps → name ∈ done →
      name ∈ ps.foldl (pushPart (isAbsolute p)) done := by
    intro ps
    induction ps with
    | nil => exact fun done _ hdone => hdone
    | cons part rest ih =>
      intro done hps hdone
      rw [List.mem_cons, not_or] at hps
      refine ih _ hps.2 ?_
      rcases part_cases part with hidle | hup | hpart
      · rwa [pushPart_of_idle hidle]
      · exact absurd hup.symm hps.1
      · rw [pushPart_of_isName hpart]
        exact List.mem_cons_of_mem _ hdone
  rw [normalParts, List.mem_reverse, h, List.foldl_append, List.foldl_cons]
  refine hkept after _ hafter ?_
  rw [pushPart_of_isName hname]
  exact List.mem_cons_self

/-- Steps up from a directory are kept. -/
theorem foldl_pushPart_ups (n k : Nat) :
    (List.replicate n "..").foldl (pushPart false) (List.replicate k "..") =
      List.replicate (k + n) ".." := by
  induction n generalizing k with
  | zero => rfl
  | succ n ih =>
    have hpush : pushPart false (List.replicate k "..") ".." = List.replicate (k + 1) ".." := by
      cases k with
      | zero => rw [List.replicate_zero, pushPart_up_nil]; rfl
      | succ k => rw [List.replicate_succ, pushPart_up_cons, if_pos rfl]; rfl
    rw [List.replicate_succ, List.foldl_cons, hpush, ih, Nat.add_right_comm, Nat.add_assoc]

/-- A relative path that goes up first and then down is in normal form. -/
theorem normalize_ofParts (hne : ps ≠ []) (hslash : ∀ part ∈ ps, '/' ∉ part.toList)
    (h : GoesUpThenDown false ps) : normalize (ofParts ps) = ofParts ps := by
  have hpart := h.empty_not_mem
  have hrelative := isAbsolute_ofParts hne hslash hpart
  have hnormal : normalParts (ofParts ps) = ps := by
    rw [normalParts, parts_ofParts hne hslash, hrelative]
    obtain ⟨n, names, rfl, hnames, -⟩ := h
    have hplain : names.filter (fun part => part ≠ "" ∧ part ≠ ".") = names :=
      List.filter_eq_self.mpr fun name hname => by
        simpa using ⟨(hnames name hname).1, (hnames name hname).2.1⟩
    have hups : (List.replicate n "..").foldl (pushPart false) [] = List.replicate n ".." := by
      simpa using foldl_pushPart_ups n 0
    rw [List.foldl_append, hups, foldl_pushPart hnames hplain, List.reverse_append,
      List.reverse_reverse, List.reverse_replicate]
  rw [normalize, hnormal, leading_of_relative hrelative, String.empty_append,
    if_neg (ofParts_ne_empty hne hslash hpart)]

/-- The parts of a normal form, behind empty ones for the slashes at its start. -/
theorem parts_normalize (h : normalParts p ≠ []) :
    ∃ slashes, (∀ s ∈ slashes, s = "") ∧ parts (normalize p) = slashes ++ normalParts p := by
  have hslash : ∀ part ∈ normalParts p, '/' ∉ part.toList := fun part hpart =>
    slash_not_mem_of_mem_parts (mem_parts_of_mem_normalParts hpart)
  have hback : parts (ofParts (normalParts p)) = normalParts p := parts_ofParts h hslash
  rw [normalize]
  cases habsolute : isAbsolute p with
  | false =>
    have hne : ofParts (normalParts p) ≠ "" :=
      ofParts_ne_empty h hslash (normalParts_shape p).empty_not_mem
    rw [leading_of_relative habsolute, String.empty_append, if_neg hne, hback]
    exact ⟨[], by simp, rfl⟩
  | true =>
    rcases leading_of_isAbsolute habsolute with hlead | hlead
    · rw [hlead, if_neg (by simp), parts_slash_append, hback]
      exact ⟨[""], by simp, rfl⟩
    · rw [hlead, if_neg (by simp)]
      have htwo : "//" ++ ofParts (normalParts p) = "/" ++ ("/" ++ ofParts (normalParts p)) := by
        rw [← String.append_assoc]
        rfl
      rw [htwo, parts_slash_append, parts_slash_append, hback]
      exact ⟨["", ""], by simp, rfl⟩

end RepoAudit.Path
