import Mathlib.Data.List.Basic
import RepoAudit.Text.Utf8

/-!
# The bytes of a text, cut anywhere

A decoder that reads the bytes of a text gives the text back. When the bytes are cut inside a
character, what is left of it can still be continued at every byte, so that it counts as one
ill-formed part and is replaced once.

* `Completes` — bytes that bring an open sequence to its end; `run_completes`, `run_take_completes` —
  a decoder that reads all of them, or some;
* `exists_lead` — each character beyond ASCII is spelled by a lead and bytes that complete it;
* `run_encodeChar`, `run_take_encodeChar` — a decoder that reads a character, or part of one;
* `fitting` — as many of the first characters of a text as fit into a number of bytes;
* `LongestFit`, `longestFit_fitting` — no longer beginning of the text fits;
* `FallsInside`, `fallsInside_iff` — a cut inside a character;
* `decode_take_encode` — **the bytes of a text cut at a number of bytes are read as the characters that
  fit, with one replacement behind them when the cut is inside a character**.
-/

namespace RepoAudit.Text.Utf8

variable {s t : List Char} {m : Nat}

/-! ### Open sequences -/

/-- Bytes that bring an open sequence, which has given `value` so far, to the value `v`: the first lies
in the stated range and the others are continuation bytes. -/
inductive Completes : (value low high : Nat) → List UInt8 → (v : Nat) → Prop
  | last {value low high v : Nat} {b : UInt8} :
      low ≤ b.toNat → b.toNat ≤ high → value * 64 + (b.toNat - 0x80) = v →
      Completes value low high [b] v
  | more {value low high v : Nat} {b b' : UInt8} {rest : List UInt8} :
      low ≤ b.toNat → b.toNat ≤ high →
      Completes (value * 64 + (b.toNat - 0x80)) 0x80 0xBF (b' :: rest) v →
      Completes value low high (b :: b' :: rest) v

/-- A decoder reads the bytes that complete a sequence as its character. -/
theorem run_completes {value low high v : Nat} {bs : List UInt8}
    (h : Completes value low high bs v) (done : List Char) :
    bs.foldl step (.inside value bs.length low high, done) = (.between, Char.ofNat v :: done) := by
  induction h with
  | last hlow hhigh hvalue =>
    subst hvalue
    rw [List.foldl_cons, List.foldl_nil, step, if_pos ⟨hlow, hhigh⟩]
    rfl
  | more hlow hhigh _ ih =>
    rw [List.foldl_cons, step, if_pos ⟨hlow, hhigh⟩]
    exact ih

/-- A decoder that has read only some of these bytes still waits for the others. -/
theorem run_take_completes {value low high v : Nat} {bs : List UInt8}
    (h : Completes value low high bs v) {k : Nat} (hk : k < bs.length) (done : List Char) :
    ∃ value' left' low' high', (bs.take k).foldl step (.inside value bs.length low high, done) =
      (.inside value' left' low' high', done) := by
  induction h generalizing k with
  | last _ _ _ =>
    have hzero : k = 0 := by simpa using hk
    subst hzero
    exact ⟨_, _, _, _, rfl⟩
  | more hlow hhigh _ ih =>
    cases k with
    | zero => exact ⟨_, _, _, _, rfl⟩
    | succ k =>
      rw [List.take_succ_cons, List.foldl_cons, step, if_pos ⟨hlow, hhigh⟩]
      exact ih (Nat.lt_of_succ_lt_succ hk)

/-! ### One character -/

theorem toNat_ofNat_of_lt {n : Nat} (h : n < 256) : (UInt8.ofNat n).toNat = n := by
  rw [UInt8.toNat_ofNat']
  exact Nat.mod_eq_of_lt h

theorem lead?_two {n : Nat} (hlow : 0xC2 ≤ n) (hhigh : n ≤ 0xDF) :
    lead? (UInt8.ofNat n) = some ⟨1, n - 0xC0, 0x80, 0xBF⟩ := by
  rw [lead?, toNat_ofNat_of_lt (by omega)]
  rw [if_pos ⟨hlow, hhigh⟩]

theorem lead?_three {n : Nat} (hlow : 0xE0 ≤ n) (hhigh : n ≤ 0xEF) :
    lead? (UInt8.ofNat n) = some ⟨2, n - 0xE0, if n = 0xE0 then 0xA0 else 0x80,
      if n = 0xED then 0x9F else 0xBF⟩ := by
  rw [lead?, toNat_ofNat_of_lt (by omega)]
  rw [if_neg (by omega)]
  by_cases hfirst : n = 0xE0
  · simp [hfirst]
  · by_cases hsurrogate : n = 0xED
    · simp [hsurrogate]
    · rw [if_neg hfirst, if_neg hsurrogate, if_pos ⟨by omega, hhigh⟩, if_neg hfirst,
        if_neg hsurrogate]

theorem lead?_four {n : Nat} (hlow : 0xF0 ≤ n) (hhigh : n ≤ 0xF4) :
    lead? (UInt8.ofNat n) = some ⟨3, n - 0xF0, if n = 0xF0 then 0x90 else 0x80,
      if n = 0xF4 then 0x8F else 0xBF⟩ := by
  rw [lead?, toNat_ofNat_of_lt (by omega)]
  rw [if_neg (by omega), if_neg (by omega), if_neg (by omega), if_neg (by omega)]
  by_cases hfirst : n = 0xF0
  · simp [hfirst]
  · by_cases hlast : n = 0xF4
    · simp [hlast]
    · rw [if_neg hfirst, if_pos ⟨by omega, by omega⟩, if_neg hfirst, if_neg hlast]

/-- The last byte of a sequence holds the last six bits. -/
theorem Completes.lastBits {value low high v n : Nat} (hlow : low ≤ n % 64 + 128)
    (hhigh : n % 64 + 128 ≤ high) (hvalue : value * 64 + n % 64 = v) :
    Completes value low high [UInt8.ofNat (n % 64 + 128)] v := by
  have hbyte : (UInt8.ofNat (n % 64 + 128)).toNat = n % 64 + 128 := toNat_ofNat_of_lt (by omega)
  apply Completes.last <;> rw [hbyte] <;> omega

/-- A byte before it holds six bits more. -/
theorem Completes.moreBits {value low high v n : Nat} {b' : UInt8} {rest : List UInt8}
    (hlow : low ≤ n % 64 + 128) (hhigh : n % 64 + 128 ≤ high)
    (h : Completes (value * 64 + n % 64) 0x80 0xBF (b' :: rest) v) :
    Completes value low high (UInt8.ofNat (n % 64 + 128) :: b' :: rest) v := by
  have hbyte : (UInt8.ofNat (n % 64 + 128)).toNat = n % 64 + 128 := toNat_ofNat_of_lt (by omega)
  apply Completes.more <;> rw [hbyte]
  · exact hlow
  · exact hhigh
  · rwa [Nat.add_sub_cancel]

/-- A character beyond ASCII is spelled by a byte that can start a sequence, and by bytes that complete
it. -/
theorem exists_lead {c : Char} (h : 0x80 ≤ c.toNat) :
    ∃ b rest l, String.utf8EncodeChar c = b :: rest ∧ 0x80 ≤ b.toNat ∧ lead? b = some l ∧
      l.follow = rest.length ∧ Completes l.bits l.low l.high rest c.toNat := by
  have hvalid : c.toNat < 0xD800 ∨ (0xDFFF < c.toNat ∧ c.toNat < 0x110000) := c.valid
  have hcode : c.val.toNat = c.toNat := rfl
  rw [String.utf8EncodeChar, hcode, if_neg (by omega)]
  generalize c.toNat = v at hvalid h
  by_cases htwo : v ≤ 2047
  · rw [if_pos htwo]
    refine ⟨_, _, _, rfl, ?_, lead?_two (by omega) (by omega), rfl, ?_⟩
    · rw [toNat_ofNat_of_lt (by omega)]
      omega
    · dsimp only
      exact .lastBits (by omega) (by omega) (by omega)
  rw [if_neg htwo]
  by_cases hthree : v ≤ 65535
  · rw [if_pos hthree]
    refine ⟨_, _, _, rfl, ?_, lead?_three (by omega) (by omega), rfl, ?_⟩
    · rw [toNat_ofNat_of_lt (by omega)]
      omega
    · -- the second byte makes no short form and no surrogate
      dsimp only
      refine .moreBits ?_ ?_ (.lastBits (by omega) (by omega) (by omega))
      · split <;> omega
      · split <;> omega
  · rw [if_neg hthree]
    refine ⟨_, _, _, rfl, ?_, lead?_four (by omega) (by omega), rfl, ?_⟩
    · rw [toNat_ofNat_of_lt (by omega)]
      omega
    · -- the second byte makes no short form and nothing above the last character
      dsimp only
      refine .moreBits ?_ ?_
        (.moreBits (by omega) (by omega) (.lastBits (by omega) (by omega) (by omega)))
      · split <;> omega
      · split <;> omega

/-- A decoder reads the bytes of a character as that character. -/
theorem run_encodeChar (c : Char) (done : List Char) :
    (String.utf8EncodeChar c).foldl step (.between, done) = (.between, c :: done) := by
  by_cases h : 0x80 ≤ c.toNat
  · obtain ⟨b, rest, l, hencode, hb, hlead, hfollow, hrest⟩ := exists_lead h
    rw [hencode, List.foldl_cons, step, start, if_neg (by omega), hlead]
    dsimp only
    rw [hfollow, run_completes hrest, Char.ofNat_toNat]
  · have hcode : c.val.toNat = c.toNat := rfl
    have hbyte : (UInt8.ofNat c.toNat).toNat = c.toNat := toNat_ofNat_of_lt (by omega)
    rw [String.utf8EncodeChar, hcode, if_pos (by omega), List.foldl_cons, List.foldl_nil, step, start,
      hbyte, if_pos (by omega), Char.ofNat_toNat]

/-- A decoder that has read part of a character still waits for the rest. -/
theorem run_take_encodeChar (c : Char) {k : Nat} (hpos : 0 < k)
    (hk : k < (String.utf8EncodeChar c).length) (done : List Char) :
    ∃ value left low high, ((String.utf8EncodeChar c).take k).foldl step (.between, done) =
      (.inside value left low high, done) := by
  by_cases h : 0x80 ≤ c.toNat
  · obtain ⟨b, rest, l, hencode, hb, hlead, hfollow, hrest⟩ := exists_lead h
    obtain ⟨k, rfl⟩ := Nat.exists_eq_succ_of_ne_zero (Nat.pos_iff_ne_zero.mp hpos)
    rw [hencode, List.length_cons] at hk
    rw [hencode, List.take_succ_cons, List.foldl_cons, step, start, if_neg (by omega), hlead]
    dsimp only
    rw [hfollow]
    exact run_take_completes hrest (Nat.lt_of_succ_lt_succ hk) done
  · -- an ASCII character has no part but itself
    have hcode : c.val.toNat = c.toNat := rfl
    rw [String.utf8EncodeChar, hcode, if_pos (by omega), List.length_singleton] at hk
    omega

/-! ### The characters that fit -/

theorem encode_cons (c : Char) (s : List Char) :
    encode (c :: s) = String.utf8EncodeChar c ++ encode s := List.flatMap_cons

theorem encode_append (s t : List Char) : encode (s ++ t) = encode s ++ encode t :=
  List.flatMap_append

theorem length_encode_le (h : t <+: s) : (encode t).length ≤ (encode s).length := by
  obtain ⟨rest, rfl⟩ := h
  rw [encode_append, List.length_append]
  omega

/-- The first characters of a text, as many as fit into a number of bytes. -/
def fitting (m : Nat) : List Char → List Char
  | [] => []
  | c :: r =>
    if (String.utf8EncodeChar c).length ≤ m then
      c :: fitting (m - (String.utf8EncodeChar c).length) r
    else []

theorem fitting_starts (m : Nat) (s : List Char) : fitting m s <+: s := by
  induction s generalizing m with
  | nil => exact List.prefix_rfl
  | cons c r ih =>
    rw [fitting]
    split
    · exact List.cons_prefix_cons.mpr ⟨rfl, ih _⟩
    · exact List.nil_prefix

theorem length_encode_fitting_le (m : Nat) (s : List Char) : (encode (fitting m s)).length ≤ m := by
  induction s generalizing m with
  | nil => exact Nat.zero_le _
  | cons c r ih =>
    rw [fitting]
    split
    · next hfits =>
      have hrest := ih (m - (String.utf8EncodeChar c).length)
      rw [encode_cons, List.length_append]
      omega
    · exact Nat.zero_le _

/-- No longer beginning of a text fits. -/
theorem prefix_fitting (h : t <+: s) (hfits : (encode t).length ≤ m) : t <+: fitting m s := by
  induction s generalizing m t with
  | nil => exact h
  | cons c r ih =>
    cases t with
    | nil => exact List.nil_prefix
    | cons c' t =>
      obtain ⟨rfl, hrest⟩ := List.cons_prefix_cons.mp h
      rw [encode_cons, List.length_append] at hfits
      rw [fitting, if_pos (by omega)]
      exact List.cons_prefix_cons.mpr ⟨rfl, ih hrest (by omega)⟩

/-- The longest beginning of a text whose bytes fit into a number of bytes. -/
structure LongestFit (m : Nat) (s kept : List Char) : Prop where
  starts : kept <+: s
  fits : (encode kept).length ≤ m
  longest : ∀ t, t <+: s → (encode t).length ≤ m → t.length ≤ kept.length

theorem longestFit_fitting (m : Nat) (s : List Char) : LongestFit m s (fitting m s) where
  starts := fitting_starts m s
  fits := length_encode_fitting_le m s
  longest := fun _ h hfits => (prefix_fitting h hfits).length_le

/-- A text that fits as a whole stays whole. -/
theorem fitting_eq_self (h : (encode s).length ≤ m) : fitting m s = s :=
  (fitting_starts m s).eq_of_length_le (prefix_fitting List.prefix_rfl h).length_le

/-- A number of bytes inside the bytes of one of the characters of a text. -/
def FallsInside (m : Nat) (s : List Char) : Prop :=
  ∃ before c, before ++ [c] <+: s ∧ (encode before).length < m ∧
    m < (encode (before ++ [c])).length

/-- The cut is inside a character exactly when the characters that fit leave bytes over. -/
theorem fallsInside_iff (m : Nat) (s : List Char) :
    FallsInside m s ↔ (encode (fitting m s)).length < min m (encode s).length := by
  have hkept := length_encode_fitting_le m s
  constructor
  · intro ⟨before, c, hnext, hbefore, hafter⟩
    have hwhole := length_encode_le hnext
    have hlt : (encode (fitting m s)).length < m := by
      rcases List.prefix_or_prefix_of_prefix (fitting_starts m s) hnext with hshort | hlong
      · rcases List.prefix_concat_iff.mp hshort with heq | hwithin
        · rw [← heq] at hafter
          omega
        · have hle := length_encode_le hwithin
          omega
      · have hle := length_encode_le hlong
        omega
    omega
  · intro hlt
    obtain ⟨rest, hrest⟩ := fitting_starts m s
    cases rest with
    | nil =>
      rw [List.append_nil] at hrest
      rw [hrest] at hlt
      omega
    | cons c rest =>
      have hnext : fitting m s ++ [c] <+: s := ⟨rest, by rw [List.append_assoc]; exact hrest⟩
      refine ⟨fitting m s, c, hnext, by omega, ?_⟩
      by_contra hfits
      have hlonger := (prefix_fitting hnext (Nat.le_of_not_lt hfits)).length_le
      rw [List.length_append, List.length_singleton] at hlonger
      omega

instance (m : Nat) (s : List Char) : Decidable (FallsInside m s) :=
  decidable_of_iff _ (fallsInside_iff m s).symm

/-! ### The main statement -/

/-- A decoder that reads the first bytes of a text. -/
theorem finish_run_take_encode (m : Nat) (s done : List Char) :
    finish (((encode s).take m).foldl step (.between, done)) =
      done.reverse ++ fitting m s ++
        if (encode (fitting m s)).length < min m (encode s).length then [replacement] else [] := by
  induction s generalizing m done with
  | nil => simp [encode, fitting, finish]
  | cons c r ih =>
    rw [encode_cons, List.take_append, List.foldl_append, fitting]
    by_cases hfits : (String.utf8EncodeChar c).length ≤ m
    · rw [List.take_of_length_le hfits, run_encodeChar, ih, if_pos hfits, encode_cons,
        List.length_append, List.length_append, List.reverse_cons]
      have hcount : (encode (fitting (m - (String.utf8EncodeChar c).length) r)).length <
            min (m - (String.utf8EncodeChar c).length) (encode r).length ↔
          (String.utf8EncodeChar c).length +
            (encode (fitting (m - (String.utf8EncodeChar c).length) r)).length <
            min m ((String.utf8EncodeChar c).length + (encode r).length) := by
        omega
      simp only [hcount, List.append_assoc, List.cons_append, List.nil_append]
    · have hnone : m - (String.utf8EncodeChar c).length = 0 := by omega
      rw [if_neg hfits, hnone, List.take_zero, List.foldl_nil, List.append_nil]
      by_cases hzero : m = 0
      · subst hzero
        simp [finish, encode]
      · obtain ⟨value, left, low, high, hrun⟩ :=
          run_take_encodeChar c (Nat.pos_of_ne_zero hzero) (Nat.lt_of_not_le hfits) done
        have hleft : (encode []).length < min m ((String.utf8EncodeChar c).length + (encode r).length) := by
          show 0 < _
          omega
        rw [hrun, List.length_append, if_pos hleft, finish, List.reverse_cons]

/-- **The bytes of a text cut at a number of bytes are read as the characters that fit, with one
replacement behind them when the cut is inside a character.** -/
theorem decode_take_encode (m : Nat) (s : List Char) :
    decode ((encode s).take m) =
      fitting m s ++ if FallsInside m s then [replacement] else [] := by
  rw [decode, finish_run_take_encode, List.reverse_nil, List.nil_append]
  simp only [fallsInside_iff]

example : decode ((encode "a€b".toList).take 3) = "a\uFFFD".toList := by decide

/-- The bytes of a text are read as the text. -/
theorem decode_encode (s : List Char) : decode (encode s) = s := by
  have hall := decode_take_encode (encode s).length s
  have houtside : ¬ FallsInside (encode s).length s := by
    rw [fallsInside_iff, fitting_eq_self Nat.le.refl, Nat.min_self]
    exact Nat.lt_irrefl _
  rw [List.take_length, fitting_eq_self Nat.le.refl, if_neg houtside, List.append_nil] at hall
  exact hall

end RepoAudit.Text.Utf8
