import Mathlib.Algebra.Order.Ring.Rat
import Mathlib.Data.Int.Log
import Mathlib.Data.Rat.Floor
import Mathlib.Tactic.Linarith
import Mathlib.Tactic.NormNum

/-! Rationals rounded to the doubles of IEEE 754. -/

namespace EnterpriseCopilot.Lib.Float64

/-- The nearest integer, of two the even one. -/
def roundEven (q : Rat) : Int :=
  if q - ⌊q⌋ < 1 / 2 then ⌊q⌋
  else if 1 / 2 < q - ⌊q⌋ then ⌊q⌋ + 1
  else if ⌊q⌋ % 2 = 0 then ⌊q⌋ else ⌊q⌋ + 1

/-- The exponent of the last place: there are 53 places, and none below `2 ^ -1074`. -/
def exponent (q : Rat) : Int := max (Int.log 2 |q| - 52) (-1074)

/-- The nearest double.  What is rounded to `2 ^ 1024` or more has none. -/
def round (q : Rat) : Option Rat :=
  let v : Rat := roundEven (q / 2 ^ exponent q) * 2 ^ exponent q
  if |v| < 2 ^ 1024 then some v else none

/-- The value is a double. -/
def Exact (q : Rat) : Prop := ∃ m e : Int, |m| < 2 ^ 53 ∧ -1074 ≤ e ∧ e ≤ 971 ∧ q = m * 2 ^ e

section Exact

variable {q : Rat} {n m e : Int}

theorem roundEven_int (n : Int) : roundEven n = n := by
  rw [roundEven, Int.floor_intCast, sub_self, if_pos (by norm_num)]

theorem two_zpow_pos (e : Int) : (0 : Rat) < 2 ^ e := zpow_pos (by norm_num) e

theorem abs_mul_zpow (m e : Int) : |(m : Rat) * 2 ^ e| = (|m| : Int) * 2 ^ e := by
  rw [abs_mul, abs_of_pos (two_zpow_pos e), Int.cast_abs]

/-- A double is below the greatest power of two. -/
theorem Exact.bounded (h : Exact q) : |q| < 2 ^ 1024 := by
  obtain ⟨m, e, hm, -, he, rfl⟩ := h
  have hpow : (2 : Rat) ^ e ≤ 2 ^ (971 : Int) := zpow_le_zpow_right₀ (by norm_num) he
  have hm' : ((|m| : Int) : Rat) < 2 ^ 53 := by exact_mod_cast hm
  calc |(m : Rat) * 2 ^ e| = (|m| : Int) * 2 ^ e := abs_mul_zpow m e
    _ < 2 ^ 53 * 2 ^ e := mul_lt_mul_of_pos_right hm' (two_zpow_pos e)
    _ ≤ 2 ^ 53 * 2 ^ (971 : Int) := mul_le_mul_of_nonneg_left hpow (by norm_num)
    _ = 2 ^ 1024 := by rw [show (2 : Rat) ^ (971 : Int) = 2 ^ 971 from zpow_natCast 2 971, ← pow_add]

/-- The last place of a double is not below the one its magnitude has. -/
theorem exponent_le (hm : |m| < 2 ^ 53) (hm0 : m ≠ 0) (he : -1074 ≤ e) : exponent (m * 2 ^ e) ≤ e := by
  have hm' : ((|m| : Int) : Rat) < 2 ^ (53 : Int) := by exact_mod_cast hm
  have hq : 0 < |(m : Rat) * 2 ^ e| := by
    rw [abs_mul_zpow]
    exact mul_pos (by exact_mod_cast abs_pos.mpr hm0) (two_zpow_pos e)
  have hlt : |(m : Rat) * 2 ^ e| < ((2 : Nat) : Rat) ^ (53 + e) := by
    rw [abs_mul_zpow, Nat.cast_ofNat, zpow_add₀ (by norm_num)]
    exact mul_lt_mul_of_pos_right hm' (two_zpow_pos e)
  have hlog := (Int.lt_zpow_iff_log_lt (by norm_num) hq).mp hlt
  exact max_le (by omega) he

theorem round_of_exact (h : Exact q) : round q = some q := by
  have hbounded := h.bounded
  obtain ⟨m, e, hm, hlow, -, rfl⟩ := h
  have hvalue : (roundEven ((m : Rat) * 2 ^ e / 2 ^ exponent (m * 2 ^ e)) : Rat) * 2 ^ exponent (m * 2 ^ e) =
      m * 2 ^ e := by
    by_cases hm0 : m = 0
    · have hzero : roundEven 0 = 0 := roundEven_int 0
      simp [hm0, hzero]
    · obtain ⟨k, hk⟩ := Int.le.dest (exponent_le hm hm0 hlow)
      have hquotient : (m : Rat) * 2 ^ e / 2 ^ exponent (m * 2 ^ e) = ((m * 2 ^ k : Int) : Rat) := by
        rw [div_eq_iff (two_zpow_pos _).ne', Int.cast_mul, Int.cast_pow, Int.cast_ofNat, mul_assoc, ← zpow_natCast,
          ← zpow_add₀ (by norm_num), add_comm (k : Int), hk]
      rw [hquotient, roundEven_int, ← hquotient, div_mul_cancel₀ _ (two_zpow_pos _).ne']
  rw [round]
  simp only [hvalue, if_pos hbounded]

theorem exact_of_round (h : round q = some q) : Exact q := by
  rw [round] at h
  split at h
  rotate_left
  · cases h
  rename_i hbounded
  have hvalue := Option.some.inj h
  rw [hvalue] at hbounded
  refine ⟨roundEven (q / 2 ^ exponent q), exponent q, ?_, le_max_right _ _, ?_, hvalue.symm⟩
  · -- the quotient has at most 53 places
    have hmax : Int.log 2 |q| + 1 ≤ 53 + exponent q := by
      have := le_max_left (Int.log 2 |q| - 52) (-1074)
      unfold exponent
      omega
    have hlt : |q| < 2 ^ (53 + exponent q) := by
      refine (Int.lt_zpow_succ_log_self (b := 2) (by norm_num) |q|).trans_le ?_
      exact zpow_le_zpow_right₀ (by norm_num) hmax
    rw [← hvalue, abs_mul_zpow, hvalue, zpow_add₀ (by norm_num)] at hlt
    exact_mod_cast lt_of_mul_lt_mul_right hlt (two_zpow_pos _).le
  · by_contra hlarge
    have hlog : 1024 ≤ Int.log 2 |q| := by
      unfold exponent at hlarge
      omega
    have hpos : 0 < |q| := by
      by_contra hzero
      rw [Int.log_of_right_le_zero _ (le_of_not_gt hzero)] at hlog
      omega
    have hpow := (Int.zpow_le_iff_le_log (b := 2) (by norm_num) hpos).mpr hlog
    exact absurd hbounded (not_lt.mpr (by exact_mod_cast hpow))

/-- Rounding leaves the doubles alone, and nothing else. -/
theorem round_eq_self : round q = some q ↔ Exact q := ⟨exact_of_round, round_of_exact⟩

end Exact

end EnterpriseCopilot.Lib.Float64
