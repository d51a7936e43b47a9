import Mathlib.Data.Int.Log
import Mathlib.Data.Rat.Floor
import Mathlib.Tactic.FieldSimp
import Mathlib.Tactic.Ring

/-! # Numbers in double precision

The number of double precision that is nearest to a rational one. An integer of
at most 53 bits is such a number.
-/

/-- Zero has no sign here. -/
inductive Double
  | finite (value : ℚ)
  | infinity (negative : Bool)
  | nan
  deriving DecidableEq, Repr

namespace Double

/-- The nearest integer, and the even one of two that are equally near. -/
def roundEven (q : ℚ) : ℤ :=
  let rest := q - ⌊q⌋
  if rest < 1 / 2 then ⌊q⌋
  else if 1 / 2 < rest then ⌊q⌋ + 1
  else if ⌊q⌋ % 2 = 0 then ⌊q⌋
  else ⌊q⌋ + 1

/-- A significand of 53 bits, or of fewer for the least numbers. -/
def ofRat (q : ℚ) : Double :=
  if q = 0 then .finite 0
  else
    let exponent := max (Int.log 2 |q| - 52) (-1074)
    let rounded : ℚ := roundEven (q / 2 ^ exponent) * 2 ^ exponent
    if 2 ^ 1024 ≤ |rounded| then .infinity (q < 0) else .finite rounded

theorem roundEven_intCast {n : ℤ} : roundEven n = n := by
  simp [roundEven]

theorem ofRat_natCast {n : ℕ} (h : n < 2 ^ 53) : ofRat n = .finite n := by
  unfold ofRat
  split
  · rename_i hzero
    rw [hzero]
  · rename_i hne
    have hlog : Int.log 2 |(n : ℚ)| - 52 ≤ 0 := by
      rw [abs_of_nonneg (Nat.cast_nonneg n), Int.log_natCast]
      have hn : n ≠ 0 := fun hzero => hne (by rw [hzero, Nat.cast_zero])
      have hlt := (Nat.log_lt_iff_lt_pow (b := 2) (by norm_num) hn).mpr h
      omega
    obtain ⟨k, hk⟩ : ∃ k : ℕ, max (Int.log 2 |(n : ℚ)| - 52) (-1074) = -k :=
      ⟨(-(max (Int.log 2 |(n : ℚ)| - 52) (-1074))).toNat, by omega⟩
    have hscaled : (n : ℚ) / 2 ^ (-(k : ℤ)) = ((n * 2 ^ k : ℤ) : ℚ) := by
      rw [zpow_neg, div_inv_eq_mul, zpow_natCast]
      push_cast
      rfl
    have hrounded : ((roundEven ((n : ℚ) / 2 ^ (-(k : ℤ))) : ℤ) : ℚ) * 2 ^ (-(k : ℤ)) = n := by
      rw [hscaled, roundEven_intCast, zpow_neg, zpow_natCast]
      push_cast
      field_simp
    simp only [hk, hrounded]
    refine if_neg (not_le.mpr ?_)
    rw [abs_of_nonneg (Nat.cast_nonneg n)]
    calc (n : ℚ) < 2 ^ 53 := by exact_mod_cast h
      _ ≤ 2 ^ 1024 := pow_le_pow_right₀ (by norm_num) (by norm_num)

end Double
