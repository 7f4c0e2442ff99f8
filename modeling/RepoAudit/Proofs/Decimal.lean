import Mathlib.Algebra.Order.Field.Power
import Mathlib.Data.Rat.Cast.Order
import Mathlib.Tactic.FieldSimp
import Mathlib.Tactic.Linarith
import Mathlib.Tactic.Positivity
import Mathlib.Tactic.Ring
import RepoAudit.Decimal

/-!
# The numbers that decimals are

* `Decimal.value` — the number that a decimal is;
* `Decimal.le_iff`, `Decimal.lt_iff` — decimals are compared as numbers;
* `Decimal.value_add` — and added as numbers;
* `Decimal.value_lt_floor` — a whole number above a decimal, from its digits.
-/

namespace RepoAudit.Decimal

variable {a b d : Decimal}

/-- The number that a decimal is. -/
def value (d : Decimal) : ℚ := d.signed * 10 ^ d.exponent

theorem ten_zpow_pos (e : Int) : (0 : ℚ) < 10 ^ e := zpow_pos (by norm_num) e

/-- The number in units of a smaller power of ten. -/
theorem value_eq_scaledTo {e : Int} (h : e ≤ d.exponent) : d.value = d.scaledTo e * 10 ^ e := by
  have hsplit : (10 : ℚ) ^ d.exponent = 10 ^ (d.exponent - e).toNat * 10 ^ e := by
    have hexponent : d.exponent = ((d.exponent - e).toNat : Int) + e := by omega
    conv_lhs => rw [hexponent]
    rw [zpow_add₀ (by norm_num), zpow_natCast]
  have hpow : Nat.pow 10 (d.exponent - e).toNat = 10 ^ (d.exponent - e).toNat := rfl
  rw [value, scaledTo, hsplit, hpow]
  push_cast
  ring

/-- Decimals are compared in units of the smaller of their powers of ten. -/
theorem value_le_iff_scaledTo :
    a.value ≤ b.value ↔
      a.scaledTo (min a.exponent b.exponent) ≤ b.scaledTo (min a.exponent b.exponent) := by
  rw [value_eq_scaledTo (min_le_left a.exponent b.exponent),
    value_eq_scaledTo (min_le_right a.exponent b.exponent),
    mul_le_mul_iff_left₀ (ten_zpow_pos _), Int.cast_le]

theorem le_iff : a.le b = true ↔ a.value ≤ b.value := by
  have hgt : ∀ x y : Int, Ord.compare x y = .gt ↔ y < x := fun x y => compare_gt_iff_gt
  rw [value_le_iff_scaledTo, le, bne_iff_ne, ne_eq]
  show ¬ Ord.compare (a.scaledTo (min a.exponent b.exponent))
    (b.scaledTo (min a.exponent b.exponent)) = .gt ↔ _
  rw [hgt, not_lt]

theorem lt_iff : a.lt b = true ↔ a.value < b.value := by
  have hlt : ∀ x y : Int, Ord.compare x y = .lt ↔ x < y := fun x y => compare_lt_iff_lt
  rw [← not_le, value_le_iff_scaledTo, min_comm, not_le, lt, beq_iff_eq]
  show Ord.compare (a.scaledTo (min a.exponent b.exponent))
    (b.scaledTo (min a.exponent b.exponent)) = .lt ↔ _
  rw [hlt]

/-- A decimal that is made of an integer and a power of ten. -/
theorem value_mk (n e : Int) :
    value ⟨decide (n < 0), n.natAbs, e⟩ = n * 10 ^ e := by
  have hsigned : signed ⟨decide (n < 0), n.natAbs, e⟩ = n := by
    rw [signed]
    by_cases hn : n < 0
    · simp only [hn, decide_true, if_true]
      omega
    · simp only [hn, decide_false, Bool.false_eq_true, if_false]
      omega
  rw [value, hsigned]

theorem value_ofInt (n : Int) : (ofInt n).value = n := by
  have h := value_mk n 0
  rwa [zpow_zero, mul_one] at h

theorem value_add (a b : Decimal) : (a.add b).value = a.value + b.value := by
  rw [value_eq_scaledTo (min_le_left a.exponent b.exponent),
    value_eq_scaledTo (min_le_right a.exponent b.exponent), ← add_mul]
  have h := value_mk (a.scaledTo (min a.exponent b.exponent) +
    b.scaledTo (min a.exponent b.exponent)) (min a.exponent b.exponent)
  rw [Int.cast_add] at h
  exact h

/-- The whole number below the size of a decimal, from its digits and its power of ten. -/
def floor (d : Decimal) : Nat :=
  d.coefficient * Nat.pow 10 d.exponent.toNat / Nat.pow 10 (-d.exponent).toNat

/-- A power of ten is a fraction of two powers that are whole numbers, one of which is one. -/
theorem ten_zpow_eq (e : Int) : (10 : ℚ) ^ e = 10 ^ e.toNat / 10 ^ (-e).toNat := by
  have hexponent : e = (e.toNat : Int) - ((-e).toNat : Int) := by omega
  conv_lhs => rw [hexponent]
  rw [zpow_sub₀ (by norm_num), zpow_natCast, zpow_natCast]

/-- A decimal lies below the next whole number. -/
theorem value_lt_floor (d : Decimal) : d.value < (d.floor + 1 : Nat) := by
  have hsigned : (d.signed : ℚ) ≤ d.coefficient := by
    rw [signed]
    split
    · push_cast
      have hnonneg : (0 : ℚ) ≤ d.coefficient := Nat.cast_nonneg _
      linarith
    · push_cast
      exact le_refl _
  have hden : 0 < Nat.pow 10 (-d.exponent).toNat := Nat.pow_pos (by norm_num)
  have hfloor : d.coefficient * Nat.pow 10 d.exponent.toNat <
      (d.floor + 1) * Nat.pow 10 (-d.exponent).toNat := by
    rw [floor, mul_comm (_ + 1)]
    exact Nat.lt_mul_div_succ _ hden
  have hcast : (d.coefficient : ℚ) * 10 ^ d.exponent.toNat <
      (d.floor + 1 : Nat) * 10 ^ (-d.exponent).toNat := by
    exact_mod_cast hfloor
  calc d.value = d.signed * (10 : ℚ) ^ d.exponent := rfl
    _ ≤ d.coefficient * (10 : ℚ) ^ d.exponent :=
      mul_le_mul_of_nonneg_right hsigned (ten_zpow_pos _).le
    _ = d.coefficient * 10 ^ d.exponent.toNat / 10 ^ (-d.exponent).toNat := by
      rw [ten_zpow_eq, mul_div_assoc]
    _ < (d.floor + 1 : Nat) := (div_lt_iff₀ (by positivity)).mpr hcast

end RepoAudit.Decimal
