import LibUdp.Text.Printing
import Mathlib.Algebra.Order.Field.Power
import Mathlib.Algebra.Order.Round
import Mathlib.Data.Rat.Cast.Order
import Mathlib.Tactic.FieldSimp
import Mathlib.Tactic.Linarith
import Mathlib.Tactic.Positivity

/-!
# Rounding

Rounded quotients, the numbers that binary64 patterns stand for, and the two roundings between
them and whole numbers of millionths.
-/

namespace Text

/-! ### Rounded quotients -/

section roundDiv

variable {num den num' den' k : ℕ}

lemma roundDiv_bounds (num : ℕ) (hden : 0 < den) :
    2 * num ≤ 2 * (den * roundDiv num den) + den ∧
      2 * (den * roundDiv num den) ≤ 2 * num + den := by
  have hdiv := Nat.div_add_mod num den
  have hlt := Nat.mod_lt num hden
  rw [roundDiv]
  split_ifs with h
  · rw [Nat.mul_add_one]
    omega
  · omega

lemma abs_roundDiv_sub_le (num : ℕ) (hden : 0 < den) :
    |(roundDiv num den : ℚ) - num / den| ≤ 1 / 2 := by
  obtain ⟨hlow, hhigh⟩ := roundDiv_bounds num hden
  have hpos : (0 : ℚ) < den := by exact_mod_cast hden
  have hlow' : (2 : ℚ) * num ≤ 2 * (den * roundDiv num den) + den := by exact_mod_cast hlow
  have hhigh' : (2 : ℚ) * (den * roundDiv num den) ≤ 2 * num + den := by exact_mod_cast hhigh
  rw [abs_le]
  constructor
  · rw [neg_le_sub_iff_le_add, div_le_iff₀ hpos]
    linarith
  · rw [sub_le_iff_le_add, ← sub_le_iff_le_add', le_div_iff₀ hpos]
    linarith

/-- The only number closer than a half is the rounded one. -/
lemma roundDiv_eq_of_abs_sub_lt (hden : 0 < den) (h : |(k : ℚ) - num / den| < 1 / 2) :
    roundDiv num den = k := by
  have hround := abs_roundDiv_sub_le num hden
  have hlt : |(roundDiv num den : ℚ) - k| < 1 := by
    rw [abs_lt] at h ⊢
    rw [abs_le] at hround
    constructor <;> linarith
  have hint : |(roundDiv num den : ℤ) - k| < 1 := by exact_mod_cast hlt
  rw [Int.abs_lt_one_iff, sub_eq_zero] at hint
  exact_mod_cast hint

lemma roundDiv_mul_left (hk : 0 < k) : roundDiv (k * num) (k * den) = roundDiv num den := by
  rw [roundDiv, roundDiv, Nat.mul_div_mul_left _ _ hk, Nat.mul_mod_mul_left, Nat.mul_left_comm]
  refine if_congr ?_ rfl rfl
  rw [Nat.mul_lt_mul_left hk, Nat.mul_right_inj hk.ne']

/-- A rounded quotient depends on the quotient alone. -/
lemma roundDiv_congr (hden : 0 < den) (hden' : 0 < den')
    (h : (num : ℚ) / den = num' / den') : roundDiv num den = roundDiv num' den' := by
  have hcross : num * den' = num' * den := by
    rw [div_eq_div_iff (by positivity) (by positivity)] at h
    exact_mod_cast h
  calc roundDiv num den
    _ = roundDiv (den' * num) (den' * den) := (roundDiv_mul_left hden').symm
    _ = roundDiv (den * num') (den * den') := by
      rw [Nat.mul_comm den' num, hcross, Nat.mul_comm num' den, Nat.mul_comm den' den]
    _ = roundDiv num' den' := roundDiv_mul_left hden

end roundDiv

/-! ### Powers of two -/

lemma two_zpow_eq (z : ℤ) : (2 : ℚ) ^ z = 2 ^ z.toNat / 2 ^ (-z).toNat := by
  obtain ⟨n, rfl | rfl⟩ := z.eq_nat_or_neg
  · simp
  · simp [zpow_neg]

lemma two_pow_mul_zpow {k : ℕ} {z e : ℤ} (h : k + z = e) : (2 : ℚ) ^ k * 2 ^ z = 2 ^ e := by
  rw [← zpow_natCast, ← zpow_add₀ two_ne_zero, h]

/-! ### Patterns -/

/-- The pattern of infinity. The patterns below it are those of the finite numbers. -/
abbrev infinity : ℕ := 0x7FF0000000000000

/-- The significand of a pattern without sign, as a whole number. -/
def significand (bits : ℕ) : ℕ :=
  if bits / 2 ^ 52 % 2 ^ 11 = 0 then bits % 2 ^ 52 else 2 ^ 52 + bits % 2 ^ 52

/-- The exponent of the last place of the significand. -/
def scale (bits : ℕ) : ℤ := (max (bits / 2 ^ 52 % 2 ^ 11) 1 : ℕ) - 1075

/-- The number that a pattern without sign stands for. -/
def magnitude (bits : ℕ) : ℚ := significand bits * 2 ^ scale bits

/-- The number in millionths, rounded. -/
def millionths (bits : ℕ) : ℕ :=
  roundDiv (significand bits * 10 ^ 6 * 2 ^ (scale bits).toNat) (2 ^ (-scale bits).toNat)

section patterns

variable {bits bits' m : ℕ} {ulp : ℤ}

lemma significand_lt (bits : ℕ) : significand bits < 2 ^ 53 := by
  rw [significand]
  split_ifs <;> omega

lemma scale_le (h : bits < infinity) : scale bits ≤ 971 := by
  rw [infinity] at h
  rw [scale]
  omega

lemma magnitude_lt (bits : ℕ) : magnitude bits < 2 ^ (scale bits + 53) := by
  have hsignificand : (significand bits : ℚ) < 2 ^ 53 := by exact_mod_cast significand_lt bits
  rw [magnitude, ← two_pow_mul_zpow (k := 53) (z := scale bits) (e := scale bits + 53) (by omega)]
  exact mul_lt_mul_of_pos_right hsignificand (by positivity)

lemma millionths_ratio (bits : ℕ) :
    ((significand bits * 10 ^ 6 * 2 ^ (scale bits).toNat : ℕ) : ℚ) /
      ((2 ^ (-scale bits).toNat : ℕ) : ℚ) = magnitude bits * 10 ^ 6 := by
  rw [magnitude, two_zpow_eq]
  push_cast
  ring

lemma abs_millionths_sub_le (bits : ℕ) :
    |(millionths bits : ℚ) - magnitude bits * 10 ^ 6| ≤ 1 / 2 := by
  rw [← millionths_ratio]
  exact abs_roundDiv_sub_le _ (by positivity)

lemma millionths_eq_of_abs_sub_lt {n : ℕ} (h : |(n : ℚ) - magnitude bits * 10 ^ 6| < 1 / 2) :
    millionths bits = n := by
  rw [← millionths_ratio] at h
  exact roundDiv_eq_of_abs_sub_lt (by positivity) h

lemma millionths_congr (h : magnitude bits = magnitude bits') :
    millionths bits = millionths bits' := by
  refine roundDiv_congr (by positivity) (by positivity) ?_
  rw [millionths_ratio, millionths_ratio, h]

/-- A significand of full length, or any for the least exponent, with its exponent makes a pattern.
One that rounding has carried to the next power of two does too. -/
lemma magnitude_pack (hulp : -1074 ≤ ulp) (hm : m ≤ 2 ^ 53) (hfull : ulp = -1074 ∨ 2 ^ 52 ≤ m)
    (hfinite : (ulp + 1074).toNat * 2 ^ 52 + m < infinity) :
    magnitude ((ulp + 1074).toNat * 2 ^ 52 + m) = m * 2 ^ ulp := by
  obtain ⟨u, rfl⟩ : ∃ u : ℕ, ulp = u - 1074 := ⟨(ulp + 1074).toNat, by omega⟩
  have hu : ((u : ℤ) - 1074 + 1074).toNat = u := by omega
  rw [hu, infinity] at hfinite
  rw [hu]
  have hcases : m < 2 ^ 52 ∨ 2 ^ 52 ≤ m ∧ m < 2 ^ 53 ∨ m = 2 ^ 53 := by omega
  rcases hcases with hlt | ⟨hle, hlt⟩ | rfl
  · obtain rfl : u = 0 := by omega
    have hsignificand : significand (0 * 2 ^ 52 + m) = m := by
      rw [significand, if_pos (by omega)]
      omega
    have hscale : scale (0 * 2 ^ 52 + m) = (0 : ℕ) - 1074 := by
      rw [scale]
      omega
    rw [magnitude, hsignificand, hscale]
  · have hsignificand : significand (u * 2 ^ 52 + m) = m := by
      rw [significand, if_neg (by omega)]
      omega
    have hscale : scale (u * 2 ^ 52 + m) = u - 1074 := by
      rw [scale]
      omega
    rw [magnitude, hsignificand, hscale]
  · have hsignificand : significand (u * 2 ^ 52 + 2 ^ 53) = 2 ^ 52 := by
      rw [significand, if_neg (by omega)]
      omega
    have hscale : scale (u * 2 ^ 52 + 2 ^ 53) = u - 1074 + 1 := by
      rw [scale]
      omega
    rw [magnitude, hsignificand, hscale, zpow_add_one₀ two_ne_zero]
    push_cast
    ring

end patterns

/-! ### Correct rounding -/

/-- The exponent of the leading binary digit of a quotient, as `binary64` finds it. -/
def leadingExponent (num den : ℕ) : ℤ :=
  let log : ℤ := num.log2 - den.log2
  if den * 2 ^ log.toNat ≤ num * 2 ^ (-log).toNat then log else log - 1

section binary64

variable {num den : ℕ}

lemma two_zpow_le_div_iff (hden : 0 < den) (z : ℤ) :
    (2 : ℚ) ^ z ≤ num / den ↔ den * 2 ^ z.toNat ≤ num * 2 ^ (-z).toNat := by
  rw [two_zpow_eq, div_le_div_iff₀ (by positivity) (by exact_mod_cast hden), mul_comm]
  exact_mod_cast Iff.rfl

lemma leadingExponent_spec (hnum : 0 < num) (hden : 0 < den) :
    (2 : ℚ) ^ leadingExponent num den ≤ num / den ∧
      (num / den : ℚ) < 2 ^ (leadingExponent num den + 1) := by
  have hnumlow : (2 : ℚ) ^ num.log2 ≤ num := by exact_mod_cast Nat.log2_self_le hnum.ne'
  have hdenlow : (2 : ℚ) ^ den.log2 ≤ den := by exact_mod_cast Nat.log2_self_le hden.ne'
  have hnumhigh : (num : ℚ) < 2 ^ (num.log2 + 1) := by exact_mod_cast Nat.lt_log2_self
  have hdenhigh : (den : ℚ) < 2 ^ (den.log2 + 1) := by exact_mod_cast Nat.lt_log2_self
  have hpos : (0 : ℚ) < den := by exact_mod_cast hden
  have hlow : (2 : ℚ) ^ ((num.log2 : ℤ) - den.log2 - 1) ≤ num / den := by
    rw [sub_sub, zpow_sub₀ two_ne_zero, zpow_natCast, ← Nat.cast_add_one, zpow_natCast]
    exact div_le_div₀ (by positivity) hnumlow hpos hdenhigh.le
  have hhigh : (num / den : ℚ) < 2 ^ ((num.log2 : ℤ) - den.log2 + 1) := by
    rw [sub_add_eq_add_sub, zpow_sub₀ two_ne_zero, zpow_natCast, ← Nat.cast_add_one, zpow_natCast]
    exact div_lt_div₀ hnumhigh hdenlow (by positivity) (by positivity)
  rw [leadingExponent]
  split_ifs with h
  · exact ⟨(two_zpow_le_div_iff hden _).mpr h, hhigh⟩
  · rw [sub_add_cancel]
    exact ⟨hlow, not_le.mp fun hle => h ((two_zpow_le_div_iff hden _).mp hle)⟩

/-- The significand is the quotient in units of the last place, rounded. -/
lemma binary64_eq (hnum : 0 < num) {ulp : ℤ}
    (hulp : ulp = max (leadingExponent num den - 52) (-1074)) :
    binary64 num den = (ulp + 1074).toNat * 2 ^ 52 +
      roundDiv (num * 2 ^ (-ulp).toNat) (den * 2 ^ ulp.toNat) := by
  subst hulp
  rw [binary64, if_neg hnum.ne']
  rfl

lemma abs_significand_sub_le (num : ℕ) (hden : 0 < den) (ulp : ℤ) :
    |(roundDiv (num * 2 ^ (-ulp).toNat) (den * 2 ^ ulp.toNat) : ℚ) - num / den / 2 ^ ulp| ≤
      1 / 2 := by
  have hden' : 0 < den * 2 ^ ulp.toNat := by positivity
  have h := abs_roundDiv_sub_le (num * 2 ^ (-ulp).toNat) hden'
  have hratio : ((num * 2 ^ (-ulp).toNat : ℕ) : ℚ) / ((den * 2 ^ ulp.toNat : ℕ) : ℚ) =
      num / den / 2 ^ ulp := by
    rw [two_zpow_eq]
    push_cast
    field_simp
  rwa [hratio] at h

end binary64

/-! ### Millionths -/

section millionths

variable {bits n : ℕ}

/-- A number that is not less than a power of two is a multiple of the last place for that power. -/
lemma exists_magnitude_eq_mul {e : ℤ} (h : (2 : ℚ) ^ e ≤ magnitude bits) :
    ∃ k : ℕ, magnitude bits = k * 2 ^ (e - 52) := by
  have hlt : (2 : ℚ) ^ e < 2 ^ (scale bits + 53) := h.trans_lt (magnitude_lt bits)
  have hscale : e < scale bits + 53 := (zpow_lt_zpow_iff_right₀ one_lt_two).mp hlt
  obtain ⟨j, hj⟩ := Int.eq_ofNat_of_zero_le (a := scale bits - (e - 52)) (by omega)
  refine ⟨significand bits * 2 ^ j, ?_⟩
  have hsum : scale bits = j + (e - 52) := by omega
  rw [magnitude, hsum, zpow_add₀ two_ne_zero, zpow_natCast]
  push_cast
  ring

/-- The millionth is more than the last place of all numbers up to this exponent. -/
lemma two_zpow_mul_lt {ulp : ℤ} (h : ulp ≤ -20) : (2 : ℚ) ^ ulp * 10 ^ 6 < 1 := by
  have hle : (2 : ℚ) ^ ulp ≤ 2 ^ (-20 : ℤ) := zpow_le_zpow_right₀ one_le_two h
  have hnum : (2 : ℚ) ^ (-20 : ℤ) * 10 ^ 6 < 1 := by norm_num
  linarith

lemma one_lt_two_zpow_mul {ulp : ℤ} (h : -19 ≤ ulp) : 1 < (2 : ℚ) ^ ulp * 10 ^ 6 := by
  have hle : (2 : ℚ) ^ (-19 : ℤ) ≤ 2 ^ ulp := zpow_le_zpow_right₀ one_le_two h
  have hnum : 1 < (2 : ℚ) ^ (-19 : ℤ) * 10 ^ 6 := by norm_num
  linarith

/-- Where the last place is more than a millionth, a number that is next to a number of millionths
has its last place at the same exponent, on whichever side of a power of two the two are. -/
lemma exists_magnitude_eq_mul_of_le {e : ℤ} (he : 33 ≤ e) (hle : (2 : ℚ) ^ e ≤ n / 10 ^ 6)
    (hnear : |(n : ℚ) - magnitude bits * 10 ^ 6| ≤ 1 / 2) :
    ∃ k : ℕ, magnitude bits = k * 2 ^ (e - 52) := by
  rw [abs_le] at hnear
  rw [le_div_iff₀ (by positivity)] at hle
  have hulp : 1 < (2 : ℚ) ^ (e - 52) * 10 ^ 6 := one_lt_two_zpow_mul (by omega)
  have hhalf : (2 : ℚ) ^ (e - 52) = 2 ^ 1 * 2 ^ (e - 1 - 52) :=
    (two_pow_mul_zpow (by omega)).symm
  have hpow : (2 : ℚ) ^ e = 2 ^ 53 * 2 ^ (e - 1 - 52) :=
    (two_pow_mul_zpow (by omega)).symm
  have hlow : (2 : ℚ) ^ (e - 1) ≤ magnitude bits := by
    have hpred : (2 : ℚ) ^ e = 2 ^ 1 * 2 ^ (e - 1) := (two_pow_mul_zpow (by omega)).symm
    have hone : (1 : ℚ) ≤ 2 ^ (e - 1) := one_le_zpow₀ one_le_two (by omega)
    linarith
  obtain ⟨k, hk⟩ := exists_magnitude_eq_mul hlow
  by_cases hge : (2 : ℚ) ^ e ≤ magnitude bits
  · exact exists_magnitude_eq_mul hge
  · -- the next number above would still not be above the millionths
    have hpos : (0 : ℚ) < 2 ^ (e - 1 - 52) := by positivity
    rw [not_le, hk, hpow, mul_lt_mul_iff_left₀ hpos] at hge
    have hsucc : (k : ℚ) + 1 ≤ 2 ^ 53 := by exact_mod_cast hge
    have hgap : magnitude bits + 2 ^ (e - 1 - 52) ≤ 2 ^ e := by
      rw [hk, hpow, ← add_one_mul]
      exact mul_le_mul_of_nonneg_right hsucc hpos.le
    linarith

/-- `n` millionths are read as `m` units of the last place at the exponent `e - 52`. -/
structure ReadsAs (n : ℕ) (e : ℤ) (m : ℕ) : Prop where
  lower : -20 ≤ e
  le : (2 : ℚ) ^ e ≤ n / 10 ^ 6
  lt : (n / 10 ^ 6 : ℚ) < 2 ^ (e + 1)
  near : |(m : ℚ) - n / 10 ^ 6 / 2 ^ (e - 52)| ≤ 1 / 2
  pattern : binary64 n (10 ^ 6) = (e - 52 + 1074).toNat * 2 ^ 52 + m

lemma exists_readsAs (hn : 0 < n) : ∃ e m, ReadsAs n e m := by
  have hmillion : 0 < 10 ^ 6 := by positivity
  obtain ⟨hle, hlt⟩ := leadingExponent_spec hn hmillion
  rw [Nat.cast_pow, Nat.cast_ofNat] at hle hlt
  have hlower : -20 ≤ leadingExponent n (10 ^ 6) := by
    have hone : (1 : ℚ) ≤ n := by exact_mod_cast hn
    have hsmall : (2 : ℚ) ^ (-20 : ℤ) < n / 10 ^ 6 := by
      rw [lt_div_iff₀ (by positivity)]
      exact (two_zpow_mul_lt le_rfl).trans_le hone
    have hexp := (zpow_lt_zpow_iff_right₀ one_lt_two).mp (hsmall.trans hlt)
    omega
  have hulp : leadingExponent n (10 ^ 6) - 52 =
      max (leadingExponent n (10 ^ 6) - 52) (-1074) := by omega
  have hnear := abs_significand_sub_le n hmillion (leadingExponent n (10 ^ 6) - 52)
  rw [Nat.cast_pow, Nat.cast_ofNat] at hnear
  exact ⟨_, _, hlower, hle, hlt, hnear, binary64_eq hn hulp⟩

namespace ReadsAs

variable {e : ℤ} {m : ℕ} (h : ReadsAs n e m)
include h

lemma significand_mem : 2 ^ 52 ≤ m ∧ m ≤ 2 ^ 53 := by
  have hpos : (0 : ℚ) < 2 ^ (e - 52) := by positivity
  have hlow : (2 : ℚ) ^ 52 ≤ n / 10 ^ 6 / 2 ^ (e - 52) := by
    rw [le_div_iff₀ hpos, two_pow_mul_zpow (e := e) (by omega)]
    exact h.le
  have hhigh : (n / 10 ^ 6 / 2 ^ (e - 52) : ℚ) < 2 ^ 53 := by
    rw [div_lt_iff₀ hpos, two_pow_mul_zpow (e := e + 1) (by omega)]
    exact h.lt
  have hnear := abs_le.mp h.near
  constructor
  · have hlt : ((2 ^ 52 : ℕ) : ℚ) < m + 1 := by
      push_cast
      linarith
    exact Nat.lt_succ_iff.mp (by exact_mod_cast hlt)
  · have hlt : (m : ℚ) < (2 ^ 53 : ℕ) + 1 := by
      push_cast
      linarith
    exact Nat.lt_succ_iff.mp (by exact_mod_cast hlt)

/-- The significand is the only whole number that near. -/
lemma eq_of_near {k : ℕ} (hk : |(k : ℚ) - n / 10 ^ 6 / 2 ^ (e - 52)| < 1 / 2) : m = k := by
  have hnear := abs_le.mp h.near
  have hlt : |(m : ℤ) - k| < 1 := by
    have hlt : |(m : ℚ) - k| < 1 := by
      rw [abs_lt] at hk ⊢
      constructor <;> linarith
    exact_mod_cast hlt
  rw [Int.abs_lt_one_iff, sub_eq_zero] at hlt
  exact_mod_cast hlt

lemma magnitude_eq (hfinite : binary64 n (10 ^ 6) < infinity) :
    magnitude (binary64 n (10 ^ 6)) = m * 2 ^ (e - 52) := by
  obtain ⟨hlow, hhigh⟩ := h.significand_mem
  have hlower := h.lower
  rw [h.pattern] at hfinite ⊢
  exact magnitude_pack (by omega) hhigh (.inr hlow) hfinite

/-- Where the last place is less than a millionth, the number read is next to the millionths. -/
lemma fine (he : e ≤ 32) : binary64 n (10 ^ 6) < infinity ∧
    |(n : ℚ) - magnitude (binary64 n (10 ^ 6)) * 10 ^ 6| < 1 / 2 := by
  obtain ⟨-, hhigh⟩ := h.significand_mem
  have hfinite : binary64 n (10 ^ 6) < infinity := by
    rw [h.pattern, infinity]
    omega
  refine ⟨hfinite, ?_⟩
  rw [h.magnitude_eq hfinite]
  have hpos : (0 : ℚ) < 2 ^ (e - 52) := by positivity
  have hulp : (2 : ℚ) ^ (e - 52) * 10 ^ 6 < 1 := two_zpow_mul_lt (by omega)
  have hscaled : (n : ℚ) - m * 2 ^ (e - 52) * 10 ^ 6 =
      -(m - n / 10 ^ 6 / 2 ^ (e - 52)) * (2 ^ (e - 52) * 10 ^ 6) := by
    field_simp
    ring
  rw [hscaled, abs_mul, abs_neg, abs_of_pos (a := 2 ^ (e - 52) * 10 ^ 6) (by positivity)]
  calc |(m : ℚ) - n / 10 ^ 6 / 2 ^ (e - 52)| * (2 ^ (e - 52) * 10 ^ 6)
      ≤ 1 / 2 * (2 ^ (e - 52) * 10 ^ 6) :=
        mul_le_mul_of_nonneg_right h.near (by positivity)
    _ < 1 / 2 := by linarith

/-- Where the last place is more than a millionth, the number that was printed is read. -/
lemma coarse (he : 33 ≤ e) (hfinite : bits < infinity)
    (hnear : |(n : ℚ) - magnitude bits * 10 ^ 6| ≤ 1 / 2) :
    binary64 n (10 ^ 6) < infinity ∧ magnitude (binary64 n (10 ^ 6)) = magnitude bits := by
  obtain ⟨k, hk⟩ := exists_magnitude_eq_mul_of_le he h.le hnear
  have hpos : (0 : ℚ) < 2 ^ (e - 52) := by positivity
  have hulp : 1 < (2 : ℚ) ^ (e - 52) * 10 ^ 6 := one_lt_two_zpow_mul (by omega)
  obtain rfl : m = k := by
    apply h.eq_of_near
    have hscaled : (k : ℚ) - n / 10 ^ 6 / 2 ^ (e - 52) =
        -(n - k * 2 ^ (e - 52) * 10 ^ 6) / (2 ^ (e - 52) * 10 ^ 6) := by
      field_simp
      ring
    rw [hscaled, abs_div, abs_neg, abs_of_pos (a := 2 ^ (e - 52) * 10 ^ 6) (by positivity), ← hk]
    rw [div_lt_iff₀ (by positivity)]
    linarith
  have hlt : (m * 2 ^ (e - 52) : ℚ) < 2 ^ (scale bits + 53) := hk ▸ magnitude_lt bits
  have hnotinf : binary64 n (10 ^ 6) < infinity := by
    obtain ⟨hlow, hhigh⟩ := h.significand_mem
    have hscale := scale_le hfinite
    have hexp : e < scale bits + 53 := by
      have hlow' : (2 : ℚ) ^ 52 ≤ m := by exact_mod_cast hlow
      have hle : (2 : ℚ) ^ e ≤ m * 2 ^ (e - 52) := by
        rw [← two_pow_mul_zpow (k := 52) (z := e - 52) (e := e) (by omega)]
        exact mul_le_mul_of_nonneg_right hlow' hpos.le
      exact (zpow_lt_zpow_iff_right₀ one_lt_two).mp (hle.trans_lt hlt)
    have hcarry : m = 2 ^ 53 → e + 1 < scale bits + 53 := by
      rintro rfl
      rw [Nat.cast_pow, Nat.cast_ofNat, two_pow_mul_zpow (e := e + 1) (by omega)] at hlt
      exact (zpow_lt_zpow_iff_right₀ one_lt_two).mp hlt
    rw [h.pattern, infinity]
    omega
  exact ⟨hnotinf, (h.magnitude_eq hnotinf).trans hk.symm⟩

end ReadsAs

lemma abs_sub_lt_millionth {x y z : ℚ} (hy : |z - y * 10 ^ 6| < 1 / 2)
    (hx : |z - x * 10 ^ 6| ≤ 1 / 2) : |y - x| < 1 / 10 ^ 6 := by
  rw [abs_lt] at hy ⊢
  rw [abs_le] at hx
  constructor <;> linarith

lemma binary64_zero (den : ℕ) : binary64 0 den = 0 := if_pos rfl

/-- What a binary64 number is printed as with six decimals, when it is read again, is printed as the
same. It is read as a finite number less than a millionth away. -/
theorem millionths_binary64 (h : bits < infinity) :
    binary64 (millionths bits) (10 ^ 6) < infinity ∧
      millionths (binary64 (millionths bits) (10 ^ 6)) = millionths bits ∧
      |magnitude (binary64 (millionths bits) (10 ^ 6)) - magnitude bits| < 1 / 10 ^ 6 := by
  have hnear := abs_millionths_sub_le bits
  rcases Nat.eq_zero_or_pos (millionths bits) with hzero | hpos
  · have hclose : |((0 : ℕ) : ℚ) - magnitude 0 * 10 ^ 6| < 1 / 2 := by simp [magnitude, significand]
    rw [hzero] at hnear ⊢
    rw [binary64_zero]
    exact ⟨by decide, millionths_eq_of_abs_sub_lt hclose, abs_sub_lt_millionth hclose hnear⟩
  · obtain ⟨e, m, hreads⟩ := exists_readsAs hpos
    rcases le_or_gt e 32 with he | he
    · obtain ⟨hfinite, hclose⟩ := hreads.fine he
      exact ⟨hfinite, millionths_eq_of_abs_sub_lt hclose, abs_sub_lt_millionth hclose hnear⟩
    · obtain ⟨hfinite, heq⟩ := hreads.coarse (by omega) h hnear
      refine ⟨hfinite, millionths_congr heq, ?_⟩
      rw [heq, sub_self, abs_zero]
      positivity

end millionths

end Text
