import RepoAudit.Proofs.Review.Shown
import RepoAudit.Proofs.Text.Utf8

/-!
# The text of a file, cut

A review reads at most a number of bytes of a file. A text that is longer is cut at a byte, which can
fall inside a character.

* `textUpTo_bytesAsked` — what is made of the bytes of a file;
* `textUpTo_of_fits`, `textUpTo_of_longer` — a text that fits, and one that does not;
* `bytesUpTo_of_overflow`, `bytesUpTo_of_tooLong`, `bytesUpTo_of_outOfMemory` — limits with which the
  system cannot be asked for one byte more;
* `excerpt_unless_overflow` — **a text that fits is read whole, and of a longer one the characters that
  fit, with one U+FFFD for a character that is cut, unless the limit is one of these**;
* `whole_text_refused` — a file of one character that is not read for that reason.
-/

namespace RepoAudit.Review

open FileTree Text.Utf8

variable {t : FileTree} {cwd loc : Location} {memory : Nat} {limit : Int} {repo path s : String}
  {c : Content}

/-! ### The bytes within the limit -/

/-- One byte more than the limit is read, to see whether there is more, and then left out. -/
theorem textUpTo_bytesAsked (hlow : 0 ≤ limit) (c : Content) :
    textUpTo limit (bytesAsked limit c) =
      textOf (c.toBytes.take limit.toNat) ++ if limit < c.toBytes.length then cutMark else "" := by
  have hnext : (limit + 1).toNat = limit.toNat + 1 := by omega
  have hbytes : bytesAsked limit c = c.toBytes.take (limit.toNat + 1) := by
    rw [bytesAsked, if_neg (by omega), Content.take_eq, hnext]
  have hcut : cutAt limit (c.toBytes.take (limit.toNat + 1)) = c.toBytes.take limit.toNat := by
    rw [cutAt, if_pos hlow, List.take_take, Nat.min_eq_left (Nat.le_succ _)]
  have hmore : limit < (c.toBytes.take (limit.toNat + 1)).length ↔ limit < c.toBytes.length := by
    rw [List.length_take]
    omega
  rw [textUpTo, hbytes, hcut]
  simp only [hmore]

/-- A text that fits is read whole. -/
theorem textUpTo_of_fits (hlow : 0 ≤ limit) (hbytes : c.toBytes = bytesOf s)
    (hfits : (bytesOf s).length ≤ limit) : textUpTo limit (bytesAsked limit c) = s := by
  rw [textUpTo_bytesAsked hlow, hbytes, if_neg (by omega), List.take_of_length_le (by omega),
    String.append_empty, textOf, bytesOf, decode_encode, String.ofList_toList]

/-- Of a longer text the characters that fit are read, and a replacement for one that is cut. -/
theorem textUpTo_of_longer (hlow : 0 ≤ limit) (hbytes : c.toBytes = bytesOf s)
    (hlonger : limit < (bytesOf s).length) :
    textUpTo limit (bytesAsked limit c) =
      String.ofList (fitting limit.toNat s.toList ++
        if FallsInside limit.toNat s.toList then ['\uFFFD'] else []) ++ cutMark := by
  rw [textUpTo_bytesAsked hlow, hbytes, if_pos hlonger, textOf, bytesOf, decode_take_encode,
    replacement]

/-! ### Limits -/

/-- One byte more than the largest length is more than the system can be asked for. -/
theorem bytesUpTo_of_overflow (hhigh : 9223372036854775807 ≤ limit) (c : Content) :
    bytesUpTo memory limit c = .error .lengthOverflow := by
  rw [bytesUpTo, if_neg (by omega), if_pos (by rw [maxLength]; omega)]

/-- With the bytes that a byte string takes beside its own the largest lengths are too long. -/
theorem bytesUpTo_of_tooLong (hlow : 9223372036854775774 ≤ limit) (hhigh : limit < 9223372036854775807)
    (c : Content) : bytesUpTo memory limit c = .error .tooLong := by
  rw [bytesUpTo, if_neg (by omega), if_neg (by rw [maxLength]; omega),
    if_pos (by rw [maxLength, byteStringOverhead]; omega)]

theorem bytesUpTo_of_outOfMemory (hlow : 0 ≤ limit) (hmemory : memory ≤ limit)
    (hhigh : limit < 9223372036854775774) (c : Content) :
    bytesUpTo memory limit c = .error .outOfMemory := by
  rw [bytesUpTo, if_neg (by omega), if_neg (by rw [maxLength]; omega),
    if_neg (by rw [maxLength, byteStringOverhead]; omega), if_pos (by omega)]

theorem textWithin_of_bytesUpTo_error {e : ReadDefect}
    (hplace : placeWithin t cwd repo path = .ok (some loc))
    (hread : t.read [] (Location.toPath loc) = .ok c) (h : bytesUpTo memory limit c = .error e) :
    textWithin t cwd memory limit repo path = .error e := by
  rw [textWithin_of_place hplace, hread, textOfRead, h]
  rfl

/-- **A text is read up to the limit, if the system can be asked for one byte more than that.** A file
that holds a text whose bytes are within the limit is read as that text. If there are more, the longest
beginning of the text is read whose bytes are within the limit, then one U+FFFD if the limit falls
inside a character and nothing if it does not, and then the mark. Only when one byte more is beyond the
largest length that the system counts to, or of a byte string, or of memory, the reading is refused. -/
theorem excerpt_unless_overflow (hplace : placeWithin t cwd repo path = .ok (some loc))
    (hread : t.read [] (Location.toPath loc) = .ok c) (hbytes : c.toBytes = bytesOf s)
    (hlow : 0 ≤ limit) (memory : Nat) :
    (limit < 9223372036854775774 → limit < memory →
      ((bytesOf s).length ≤ limit → textWithin t cwd memory limit repo path = .ok (some s)) ∧
      (limit < (bytesOf s).length → ∃ kept, LongestFit limit.toNat s.toList kept ∧
        (FallsInside limit.toNat s.toList → textWithin t cwd memory limit repo path =
          .ok (some (String.ofList (kept ++ ['\uFFFD']) ++ cutMark))) ∧
        (¬ FallsInside limit.toNat s.toList → textWithin t cwd memory limit repo path =
          .ok (some (String.ofList kept ++ cutMark))))) ∧
    (9223372036854775807 ≤ limit →
      textWithin t cwd memory limit repo path = .error .lengthOverflow) ∧
    (9223372036854775774 ≤ limit → limit < 9223372036854775807 →
      textWithin t cwd memory limit repo path = .error .tooLong) ∧
    (memory ≤ limit → limit < 9223372036854775774 →
      textWithin t cwd memory limit repo path = .error .outOfMemory) := by
  refine ⟨?_, fun hhigh => ?_, fun hhigh hbelow => ?_, fun hmemory hhigh => ?_⟩
  · intro hhigh hmemory
    have haskable : Askable memory limit := by
      refine ⟨by omega, ?_, by omega⟩
      rw [maxLength, byteStringOverhead]
      omega
    have htext : textWithin t cwd memory limit repo path =
        .ok (some (textUpTo limit (bytesAsked limit c))) :=
      textWithin_eq_some_iff.mpr ⟨loc, c, hplace, hread, haskable, rfl⟩
    constructor
    · intro hfits
      rw [htext, textUpTo_of_fits hlow hbytes hfits]
    · intro hlonger
      refine ⟨fitting limit.toNat s.toList, longestFit_fitting _ _, ?_, ?_⟩
      · intro hinside
        rw [htext, textUpTo_of_longer hlow hbytes hlonger, if_pos hinside]
      · intro houtside
        rw [htext, textUpTo_of_longer hlow hbytes hlonger, if_neg houtside, List.append_nil]
  · exact textWithin_of_bytesUpTo_error hplace hread (bytesUpTo_of_overflow hhigh c)
  · exact textWithin_of_bytesUpTo_error hplace hread (bytesUpTo_of_tooLong hhigh hbelow c)
  · exact textWithin_of_bytesUpTo_error hplace hread (bytesUpTo_of_outOfMemory hlow hmemory hhigh c)

/-- A clone with one text in all of its files. -/
def cloneOf (s : String) : FileTree := Reviewer.clonedTree.refill fun _ _ => .ofText s

theorem placeWithin_cloneOf (s : String) :
    placeWithin (cloneOf s) [] "/repo" "app.py" = .ok (some ["repo", "app.py"]) :=
  (placeWithin_refill _ _ _ _ _).trans Reviewer.placeWithin_clonedTree_app

theorem read_cloneOf (s : String) :
    (cloneOf s).read [] (Location.toPath ["repo", "app.py"]) = .ok (.ofText s) :=
  read_refill_ok (c := .ofText "x\n") Reviewer.locate_clonedTree.1
    (read_eq_ok_iff.mpr ⟨_, Reviewer.locate_clonedTree.1, by decide⟩)

/-- A cut inside the euro sign, of which two bytes are within the limit. -/
theorem excerpt_unless_overflow_euro :
    placeWithin (cloneOf "a€b") [] "/repo" "app.py" = .ok (some ["repo", "app.py"]) ∧
      (cloneOf "a€b").read [] (Location.toPath ["repo", "app.py"]) = .ok (.ofText "a€b") ∧
      (Content.ofText "a€b").toBytes = bytesOf "a€b" ∧ (0 : Int) ≤ 3 ∧
      ∃ kept, LongestFit 3 "a€b".toList kept ∧ textWithin (cloneOf "a€b") [] 4096 3 "/repo" "app.py" =
        .ok (some (String.ofList (kept ++ ['\uFFFD']) ++ cutMark)) := by
  have hbytes : (Content.ofText "a€b").toBytes = bytesOf "a€b" := by decide
  have hlow : (0 : Int) ≤ 3 := by decide
  refine ⟨placeWithin_cloneOf _, read_cloneOf _, hbytes, hlow, ?_⟩
  have hcut := (excerpt_unless_overflow (placeWithin_cloneOf "a€b") (read_cloneOf "a€b") hbytes
    hlow 4096).1 (by decide) (by decide)
  obtain ⟨kept, hkept, hinside, -⟩ := hcut.2 (by decide)
  refine ⟨kept, hkept, hinside ?_⟩
  decide

/-- A file of one character is not read when the limit is the largest length. -/
theorem whole_text_refused :
    textWithin (cloneOf "x") [] 68719476736 9223372036854775807 "/repo" "app.py" =
        .error .lengthOverflow ∧
      ¬ ∀ (t : FileTree) cwd memory repo path loc c (s : String) (limit : Int),
        placeWithin t cwd repo path = .ok (some loc) → t.read [] (Location.toPath loc) = .ok c →
          c.toBytes = bytesOf s → 0 ≤ limit → (bytesOf s).length ≤ limit →
            textWithin t cwd memory limit repo path = .ok (some s) := by
  have hrefused : textWithin (cloneOf "x") [] 68719476736 9223372036854775807 "/repo" "app.py" =
      .error .lengthOverflow :=
    textWithin_of_bytesUpTo_error (placeWithin_cloneOf "x") (read_cloneOf "x")
      (bytesUpTo_of_overflow (by decide) _)
  refine ⟨hrefused, fun hall => ?_⟩
  have hread := hall _ _ 68719476736 _ _ _ _ "x" 9223372036854775807 (placeWithin_cloneOf "x")
    (read_cloneOf "x") (by decide) (by decide) (by decide)
  exact absurd (hrefused.symm.trans hread) (by simp)

end RepoAudit.Review
