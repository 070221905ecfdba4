import Mathlib.Data.Nat.Cast.Field
import Mathlib.Data.Rat.Floor
import Mathlib.Data.Int.Log
import Mathlib.Tactic.Linarith
import Mathlib.Algebra.Order.Field.Power
import Mathlib.Tactic.Positivity
import Mathlib.Tactic.FieldSimp

/-!
# Binary64 Numbers

A library for IEEE 754 binary64 values as exact rationals: a finite value is a sign, an
integer significand below `2 ^ 53` and an exponent, in the one normal form the format
has for it, so equality of values is equality of the structure. `Float64.round` rounds a
non-negative rational to nearest, ties to even, with overflow to infinity; arithmetic is exact
rational arithmetic followed by `round`. Not-a-number is one value.

## Main results

* `round_abs`: rounding is the identity on floats.
* `round_natCast`: small integers are exact.
-/

namespace Go

/-- A **finite binary64 value** `± mant * 2 ^ exp` in normal form: the significand has
its top bit set unless the exponent is the least one. -/
@[ext]
structure Finite64 where
  neg : Bool
  mant : ℕ
  exp : ℤ
  mant_lt : mant < 2 ^ 53
  le_exp : -1074 ≤ exp
  exp_le : exp ≤ 971
  normal : 2 ^ 52 ≤ mant ∨ exp = -1074
deriving DecidableEq

/-- A **binary64 value**: finite, an infinity, or not a number. -/
inductive Float64 where
  | finite (x : Finite64)
  | inf (neg : Bool)
  | nan
deriving DecidableEq

namespace Finite64

/-- The magnitude of a finite value. -/
def abs (x : Finite64) : ℚ :=
  x.mant * 2 ^ x.exp

/-- The value of a finite number. -/
def toRat (x : Finite64) : ℚ :=
  if x.neg then -x.abs else x.abs

def zero (neg : Bool) : Finite64 :=
  ⟨neg, 0, -1074, by norm_num, by norm_num, by norm_num, by norm_num⟩

end Finite64

namespace Float64

/-- Round a non-negative rational to an integer, ties to even. -/
def roundHalfEven (q : ℚ) : ℕ :=
  let f := ⌊q⌋₊
  if q - f < 1 / 2 then f
  else if 1 / 2 < q - f then f + 1
  else if f % 2 = 0 then f
  else f + 1

/-- The value with the given significand and exponent; one that leaves the format's
range is an infinity. -/
def pack (neg : Bool) (m : ℕ) (e : ℤ) : Float64 :=
  if h : m < 2 ^ 53 ∧ -1074 ≤ e ∧ e ≤ 971 ∧ (2 ^ 52 ≤ m ∨ e = -1074) then
    .finite ⟨neg, m, e, h.1, h.2.1, h.2.2.1, h.2.2.2⟩
  else
    .inf neg

/-- **Rounding to nearest, ties to even** of a non-negative magnitude. -/
def round (neg : Bool) (q : ℚ) : Float64 :=
  if q = 0 then
    .finite (.zero neg)
  else
    let e := max (Int.log 2 q - 52) (-1074)
    let m := roundHalfEven (q / 2 ^ e)
    if m < 2 ^ 53 then pack neg m e else pack neg (m / 2) (e + 1)

/-- The nearest value of a rational; zero is positive. -/
def ofRat (q : ℚ) : Float64 :=
  round (decide (q < 0)) |q|

/-- `float64(n)` for a signed integer. -/
def ofInt (n : ℤ) : Float64 :=
  ofRat n

/-- `float64(n)` for an unsigned integer. -/
def ofNat (n : ℕ) : Float64 :=
  round false n

/-- The order of finite values and infinities; nothing is below or above not-a-number. -/
def lt : Float64 → Float64 → Bool
  | finite x, finite y => decide (x.toRat < y.toRat)
  | finite _, inf neg => !neg
  | inf neg, finite _ => neg
  | inf neg, inf neg' => neg && !neg'
  | _, _ => false

/-- Less than or equal, false against not-a-number. -/
def le : Float64 → Float64 → Bool
  | nan, _ => false
  | _, nan => false
  | x, y => !lt y x

/-- Addition of finite values; the service adds nothing else. -/
def addFinite (x y : Finite64) : Float64 :=
  ofRat (x.toRat + y.toRat)

def mul : Float64 → Float64 → Float64
  | finite x, finite y => round (x.neg != y.neg) (x.abs * y.abs)
  | finite x, inf neg => if x.mant = 0 then nan else inf (x.neg != neg)
  | inf neg, finite y => if y.mant = 0 then nan else inf (neg != y.neg)
  | inf neg, inf neg' => inf (neg != neg')
  | _, _ => nan

def div : Float64 → Float64 → Float64
  | finite x, finite y =>
    if y.mant = 0 then
      if x.mant = 0 then nan else inf (x.neg != y.neg)
    else
      round (x.neg != y.neg) (x.abs / y.abs)
  | finite x, inf neg => finite (.zero (x.neg != neg))
  | inf neg, finite y => inf (neg != y.neg)
  | _, _ => nan

def add : Float64 → Float64 → Float64
  | finite x, finite y => addFinite x y
  | finite _, inf neg => inf neg
  | inf neg, finite _ => inf neg
  | inf neg, inf neg' => if neg = neg' then inf neg else nan
  | _, _ => nan

/-- The integer a finite value is equal to, if there is one. -/
def toInt? : Float64 → Option ℤ
  | finite x => if x.toRat = ⌊x.toRat⌋ then some ⌊x.toRat⌋ else none
  | _ => none

/-- Truncation toward zero of a non-negative finite value, as `uint64(x)` computes it in
range. -/
def truncNat : Float64 → ℕ
  | finite x => ⌊x.abs⌋₊
  | _ => 0

/-! ### Exactness of rounding -/

@[simp] theorem roundHalfEven_natCast (n : ℕ) : roundHalfEven n = n := by
  simp [roundHalfEven]

theorem pack_of_valid {neg : Bool} (x : Finite64) (h : x.neg = neg) :
    pack neg x.mant x.exp = .finite x := by
  have hv : x.mant < 2 ^ 53 ∧ -1074 ≤ x.exp ∧ x.exp ≤ 971 ∧ (2 ^ 52 ≤ x.mant ∨ x.exp = -1074) :=
    ⟨x.mant_lt, x.le_exp, x.exp_le, x.normal⟩
  unfold pack
  rw [dif_pos hv]
  subst h
  rfl

/-- The exponent that `round` picks for the magnitude of a nonzero value is its own. -/
theorem round_exp (x : Finite64) (hm : x.mant ≠ 0) :
    max (Int.log 2 x.abs - 52) (-1074) = x.exp := by
  have hpos : 0 < x.abs := by
    unfold Finite64.abs
    have : (0 : ℚ) < x.mant := by exact_mod_cast Nat.pos_of_ne_zero hm
    positivity
  have hlt : x.abs < (2 : ℕ) ^ (53 + x.exp) := by
    have h53 : (x.mant : ℚ) < 2 ^ (53 : ℤ) := by exact_mod_cast x.mant_lt
    rw [Nat.cast_ofNat, zpow_add₀ (by norm_num)]
    exact mul_lt_mul_of_pos_right h53 (by positivity)
  have hlog_lt : Int.log 2 x.abs < 53 + x.exp := (Int.lt_zpow_iff_log_lt (by norm_num) hpos).mp hlt
  rcases x.normal with hn | he
  · have hle : ((2 : ℕ) : ℚ) ^ (52 + x.exp) ≤ x.abs := by
      have h52 : (2 : ℚ) ^ (52 : ℤ) ≤ x.mant := by exact_mod_cast hn
      rw [Nat.cast_ofNat, zpow_add₀ (by norm_num)]
      exact mul_le_mul_of_nonneg_right h52 (by positivity)
    have hlog_le : 52 + x.exp ≤ Int.log 2 x.abs :=
      (Int.zpow_le_iff_le_log (by norm_num) hpos).mp hle
    have := x.le_exp
    omega
  · omega

/-- **Rounding a representable magnitude is the identity.** -/
theorem round_abs (x : Finite64) : round x.neg x.abs = .finite x := by
  by_cases hm : x.mant = 0
  · have habs : x.abs = 0 := by simp [Finite64.abs, hm]
    have hexp : x.exp = -1074 := by
      rcases x.normal with hn | he
      · omega
      · exact he
    unfold round
    rw [if_pos habs]
    congr 1
    ext
    · rfl
    · exact hm.symm
    · exact hexp.symm
  · have hne : x.abs ≠ 0 := by
      unfold Finite64.abs
      have : (x.mant : ℚ) ≠ 0 := by exact_mod_cast hm
      positivity
    have hq : x.abs / 2 ^ x.exp = (x.mant : ℚ) := by
      unfold Finite64.abs
      field_simp
    unfold round
    simp only [if_neg hne, round_exp x hm, hq, roundHalfEven_natCast, x.mant_lt, if_true]
    exact pack_of_valid x rfl

/-- **Integers below `2 ^ 53` are exact.** -/
theorem round_natCast (neg : Bool) {n : ℕ} (hn : n < 2 ^ 53) :
    ∃ x : Finite64, round neg n = .finite x ∧ x.abs = n ∧ x.neg = neg := by
  by_cases h0 : n = 0
  · subst h0
    exact ⟨.zero neg, by simp [round], by simp [Finite64.abs, Finite64.zero], rfl⟩
  · -- Shift the top bit of `n` up to bit 52; the shift is the exponent.
    have hlog : Nat.log 2 n < 53 := Nat.log_lt_of_lt_pow h0 hn
    have hlow : 2 ^ Nat.log 2 n ≤ n := Nat.pow_log_le_self 2 h0
    have hhigh : n < 2 ^ (Nat.log 2 n + 1) := Nat.lt_pow_succ_log_self (by norm_num) n
    let k := 52 - Nat.log 2 n
    have hk : Nat.log 2 n + k = 52 := by omega
    have hm : n * 2 ^ k < 2 ^ 53 := by
      calc n * 2 ^ k < 2 ^ (Nat.log 2 n + 1) * 2 ^ k :=
            Nat.mul_lt_mul_of_pos_right hhigh (by positivity)
        _ = 2 ^ 53 := by rw [← pow_add]; congr 1; omega
    have hm' : 2 ^ 52 ≤ n * 2 ^ k := by
      calc 2 ^ 52 = 2 ^ Nat.log 2 n * 2 ^ k := by rw [← pow_add, hk]
        _ ≤ n * 2 ^ k := Nat.mul_le_mul_right _ hlow
    let x : Finite64 := ⟨neg, n * 2 ^ k, -(k : ℤ), hm, by omega, by omega, .inl hm'⟩
    have hx : x.abs = n := by
      simp only [x, Finite64.abs, Nat.cast_mul, Nat.cast_pow, Nat.cast_ofNat, zpow_neg,
        zpow_natCast]
      field_simp
    exact ⟨x, by rw [← hx]; exact round_abs x, hx, rfl⟩

theorem div_ofNat {a b : ℕ} (ha : a < 2 ^ 53) (hb : b < 2 ^ 53) (hb0 : b ≠ 0) (hdvd : b ∣ a) :
    div (ofNat a) (ofNat b) = ofNat (a / b) := by
  obtain ⟨x, hx, hxa, hxn⟩ := round_natCast false ha
  obtain ⟨y, hy, hyb, hyn⟩ := round_natCast false hb
  have hym : y.mant ≠ 0 := by
    intro h
    have : (b : ℚ) = 0 := by rw [← hyb, Finite64.abs, h]; simp
    exact hb0 (by exact_mod_cast this)
  rw [ofNat, ofNat, ofNat, hx, hy]
  simp only [div, hym, if_false, hxn, hyn, hxa, hyb, bne_self_eq_false]
  rw [Nat.cast_div hdvd (by exact_mod_cast hb0)]

/-- A product of integers in range is exact, and so is its integer part. -/
theorem truncNat_mul_ofNat {a b : ℕ} (ha : a < 2 ^ 53) (hb : b < 2 ^ 53)
    (hab : a * b < 2 ^ 53) : (mul (ofNat a) (ofNat b)).truncNat = a * b := by
  obtain ⟨x, hx, hxa, hxn⟩ := round_natCast false ha
  obtain ⟨y, hy, hyb, hyn⟩ := round_natCast false hb
  obtain ⟨z, hz, hzab, -⟩ := round_natCast false hab
  rw [ofNat, ofNat, hx, hy]
  simp only [mul, hxn, hyn, hxa, hyb, bne_self_eq_false]
  rw [← Nat.cast_mul, hz]
  simp only [truncNat, hzab, Nat.floor_natCast]

end Float64

end Go
