import Mathlib.Algebra.Order.Ring.Int
import Mathlib.Tactic.Positivity

/-!
# Exponential Backoff

`BackoffDuration` of the client's retries (`sdk/retry/retry.go`). Durations are `int64`, and a
shift wraps around; the source only shifts after a check that says that it does not.

## Main results

* `backoff_exact`: bounds, monotony and the jitter.
-/

namespace Decree.Retry

/-- The `int64` that a result is kept as. -/
def wrap64 (i : ℤ) : ℤ :=
  (i + 2 ^ 63) % 2 ^ 64 - 2 ^ 63

/-- The attempt as a shift, from 0 to 62. -/
def shiftOf (attempt : ℤ) : ℕ :=
  (if attempt < 0 then 0 else if 62 < attempt then 62 else attempt).toNat

/-- The check before the shift. -/
def exceeds (initial : ℤ) (shift : ℕ) : Prop :=
  0 < shift ∧ (2 ^ 63 - 1) / 2 ^ shift < initial

instance (initial : ℤ) (shift : ℕ) : Decidable (exceeds initial shift) :=
  instDecidableAnd

/-- **`BackoffDuration`**; `rand` draws a number below its argument. -/
def backoffDuration (rand : ℤ → ℤ) (attempt initial max : ℤ) (jitter : Bool) : ℤ :=
  let shift := shiftOf attempt
  let backoff := if exceeds initial shift then max else wrap64 (initial * 2 ^ shift)
  let backoff := if max < backoff ∨ backoff < 0 then max else backoff
  if jitter ∧ 0 < backoff then rand backoff else backoff

variable {initial max : ℤ}

section

variable (hi : 1 ≤ initial ∧ initial < 2 ^ 63)

include hi

/-- A shift that passes the check does not overflow, and one that fails it would. -/
theorem exceeds_iff (shift : ℕ) : exceeds initial shift ↔ 2 ^ 63 ≤ initial * 2 ^ shift := by
  have hpos : (0 : ℤ) < 2 ^ shift := by positivity
  rcases Nat.eq_zero_or_pos shift with rfl | hshift
  · simpa [exceeds] using hi.2
  · rw [exceeds, and_iff_right hshift, Int.ediv_lt_iff_lt_mul hpos]
    omega

theorem wrap64_shift {shift : ℕ}
    (h : ¬ exceeds initial shift) : wrap64 (initial * 2 ^ shift) = initial * 2 ^ shift := by
  rw [exceeds_iff hi] at h
  have hpos : 0 < initial * 2 ^ shift := mul_pos hi.1 (by positivity)
  rw [wrap64]
  omega

theorem backoffDuration_eq_min (rand : ℤ → ℤ) (hm : 1 ≤ max ∧ max < 2 ^ 63) (attempt : ℤ) :
    backoffDuration rand attempt initial max false = min (initial * 2 ^ shiftOf attempt) max := by
  have hpos : 0 < initial * 2 ^ shiftOf attempt := mul_pos hi.1 (by positivity)
  by_cases h : exceeds initial (shiftOf attempt)
  · have hle := (exceeds_iff hi _).mp h
    simp only [backoffDuration, if_pos h, Bool.false_eq_true, false_and, if_false]
    split_ifs <;> omega
  · simp only [backoffDuration, if_neg h, wrap64_shift hi h, Bool.false_eq_true, false_and,
      if_false]
    split_ifs <;> omega

end

/-- **The backoff is exact**: no shift overflows, every backoff is between 1 and the maximum, it
does not decrease with the attempts, and up to attempt 62 it is the doubled initial duration or
the maximum. -/
theorem backoff_exact (rand : ℤ → ℤ) (hi : 1 ≤ initial ∧ initial < 2 ^ 63)
    (hm : 1 ≤ max ∧ max < 2 ^ 63) :
    (∀ attempt, ¬ exceeds initial (shiftOf attempt) →
        wrap64 (initial * 2 ^ shiftOf attempt) = initial * 2 ^ shiftOf attempt) ∧
      (∀ attempt, 1 ≤ backoffDuration rand attempt initial max false ∧
        backoffDuration rand attempt initial max false ≤ max) ∧
      (∀ a b, a ≤ b → backoffDuration rand a initial max false ≤
        backoffDuration rand b initial max false) ∧
      ∀ attempt : ℕ, attempt ≤ 62 →
        backoffDuration rand attempt initial max false = min (initial * 2 ^ attempt) max := by
  have heq := backoffDuration_eq_min hi rand hm
  refine ⟨fun attempt => wrap64_shift hi, fun attempt => ?_, fun a b hab => ?_, fun n hn => ?_⟩
  · have hpos : 0 < initial * 2 ^ shiftOf attempt := mul_pos hi.1 (by positivity)
    rw [heq]
    omega
  · have hshift : shiftOf a ≤ shiftOf b := by
      simp only [shiftOf]
      split_ifs <;> omega
    rw [heq, heq]
    have hpow : (2 : ℤ) ^ shiftOf a ≤ 2 ^ shiftOf b := pow_le_pow_right₀ (by norm_num) hshift
    exact min_le_min_right _ (mul_le_mul_of_nonneg_left hpow (by omega))
  · have hshift : shiftOf n = n := by
      simp only [shiftOf]
      split_ifs <;> omega
    rw [heq, hshift]

/-- Three nanoseconds, doubled up to ten. -/
theorem backoff_exact_three : backoffDuration id 1 3 10 false = 6 ∧
    backoffDuration id 5 3 10 false ≤ 10 :=
  ⟨by decide, ((backoff_exact id (by decide) (by decide)).2.1 5).2⟩

end Decree.Retry
