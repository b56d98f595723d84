import Engraving.Proofs.Number.NearestEven
import Mathlib.Data.Int.Log
import Mathlib.Data.Rat.Floor
import Mathlib.Tactic.Positivity

/-!
# The grid of binary64 numbers

Around a rational number the finite floats form a grid whose spacing is a power of two: 53 bits
from the leading one down, but no finer than `2⁻¹⁰⁷⁴`. Rounding a result means going to the nearest
point of that grid. Here this is a function on rational numbers, `nearestBinary`, with no upper end
to the exponents: whether a result overflows is asked of its value, not of the way it is rounded.
-/

namespace Engraving

/-- The exponent of the spacing of the grid around `q`. -/
def lastPlace (q : ℚ) : ℤ := max (Int.log 2 |q| - 52) (-1074)

/-- The point of the binary64 grid that is nearest to `q`. -/
def nearestBinary (q : ℚ) : ℚ := nearestEven (q / 2 ^ lastPlace q) * 2 ^ lastPlace q

theorem two_zpow_pos (e : ℤ) : (0 : ℚ) < 2 ^ e := zpow_pos two_pos e

theorem neg_1074_le_lastPlace (q : ℚ) : -1074 ≤ lastPlace q := le_max_right _ _

@[simp] theorem lastPlace_neg (q : ℚ) : lastPlace (-q) = lastPlace q := by
  rw [lastPlace, lastPlace, abs_neg]

theorem nearestBinary_neg (q : ℚ) : nearestBinary (-q) = -nearestBinary q := by
  rw [nearestBinary, nearestBinary, lastPlace_neg, neg_div, nearestEven_neg, Int.cast_neg, neg_mul]

@[simp] theorem nearestBinary_zero : nearestBinary 0 = 0 := by
  have h := nearestEven_intCast 0
  rw [Int.cast_zero] at h
  rw [nearestBinary, zero_div, h, Int.cast_zero, zero_mul]

theorem nearestBinary_nonneg {q : ℚ} (hq : 0 ≤ q) : 0 ≤ nearestBinary q := by
  have hpos := two_zpow_pos (lastPlace q)
  have hnear := (isNearestEven_nearestEven (q / 2 ^ lastPlace q)).nonneg (div_nonneg hq hpos.le)
  exact mul_nonneg (by exact_mod_cast hnear) hpos.le

/-! ## How far the grid is -/

/-- The spacing around a number is a `2⁻⁵²` part of it, unless it is the least spacing. -/
theorem two_zpow_lastPlace_le (q : ℚ) :
    (2 : ℚ) ^ lastPlace q ≤ |q| * 2 ^ (-52 : ℤ) + 2 ^ (-1074 : ℤ) ∨ q = 0 := by
  rcases eq_or_ne q 0 with hq | hq
  · exact Or.inr hq
  left
  have hlog : (2 : ℚ) ^ Int.log 2 |q| ≤ |q| := Int.zpow_log_le_self (by norm_num) (abs_pos.mpr hq)
  rcases max_cases (Int.log 2 |q| - 52) (-1074) with ⟨h, -⟩ | ⟨h, -⟩
  · rw [lastPlace, h, sub_eq_add_neg, zpow_add₀ two_ne_zero]
    have hscaled := mul_le_mul_of_nonneg_right hlog (two_zpow_pos (-52)).le
    linarith [two_zpow_pos (-1074)]
  · rw [lastPlace, h]
    linarith [mul_nonneg (abs_nonneg q) (two_zpow_pos (-52)).le]

theorem abs_nearestBinary_sub_le_half_place (q : ℚ) :
    |nearestBinary q - q| ≤ 2 ^ lastPlace q / 2 := by
  have hpos := two_zpow_pos (lastPlace q)
  have hscaled : nearestBinary q - q
      = -((q / 2 ^ lastPlace q - nearestEven (q / 2 ^ lastPlace q)) * 2 ^ lastPlace q) := by
    rw [nearestBinary, sub_mul, div_mul_cancel₀ q hpos.ne']
    ring
  rw [hscaled, abs_neg, abs_mul, abs_of_pos hpos]
  calc |q / 2 ^ lastPlace q - nearestEven (q / 2 ^ lastPlace q)| * 2 ^ lastPlace q
      ≤ 1 / 2 * 2 ^ lastPlace q :=
        mul_le_mul_of_nonneg_right (abs_sub_nearestEven_le _) hpos.le
    _ = 2 ^ lastPlace q / 2 := by ring

/-- Rounding moves a number by a `2⁻⁵³` part of it at most, and by half the least spacing where
numbers are tiny. -/
theorem abs_nearestBinary_sub_le (q : ℚ) :
    |nearestBinary q - q| ≤ |q| * 2 ^ (-53 : ℤ) + 2 ^ (-1075 : ℤ) := by
  rcases two_zpow_lastPlace_le q with hplace | rfl
  · have hhalf : |q| * (2 : ℚ) ^ (-53 : ℤ) + 2 ^ (-1075 : ℤ)
        = (|q| * 2 ^ (-52 : ℤ) + 2 ^ (-1074 : ℤ)) / 2 := by
      rw [show (-53 : ℤ) = -52 + -1 from rfl, show (-1075 : ℤ) = -1074 + -1 from rfl,
        zpow_add₀ two_ne_zero, zpow_add₀ two_ne_zero, zpow_neg_one]
      ring
    rw [hhalf]
    exact (abs_nearestBinary_sub_le_half_place q).trans
      (div_le_div_of_nonneg_right hplace two_pos.le)
  · rw [nearestBinary_zero, sub_zero, abs_zero, zero_mul, zero_add]
    exact (two_zpow_pos _).le

/-- Numbers well below the largest floats do not become infinite by rounding. -/
theorem abs_nearestBinary_lt {q : ℚ} (h : |q| ≤ 2 ^ 1022) : |nearestBinary q| < 2 ^ 1024 := by
  have herror := abs_nearestBinary_sub_le q
  have htri := abs_sub_abs_le_abs_sub (nearestBinary q) q
  have hpart : |q| * (2 : ℚ) ^ (-53 : ℤ) ≤ |q| :=
    mul_le_of_le_one_right (abs_nonneg q) (zpow_le_one_of_nonpos₀ one_le_two (by norm_num))
  have hleast : (2 : ℚ) ^ (-1075 : ℤ) ≤ 2 ^ 1022 :=
    (zpow_le_one_of_nonpos₀ one_le_two (by norm_num)).trans (one_le_pow₀ one_le_two)
  have htop : (2 : ℚ) ^ 1024 = 4 * 2 ^ 1022 := by
    rw [show (4 : ℚ) = 2 ^ 2 by norm_num, ← pow_add]
  have hpos : (0 : ℚ) < 2 ^ 1022 := by positivity
  rw [htop]
  have hthree (b : ℚ) : b + b + b = 3 * b := by ring
  calc |nearestBinary q| ≤ |nearestBinary q - q| + |q| := sub_le_iff_le_add.mp htri
    _ ≤ |q| + 2 ^ 1022 + |q| := by
      gcongr
      exact herror.trans (add_le_add hpart hleast)
    _ ≤ 2 ^ 1022 + 2 ^ 1022 + 2 ^ 1022 := by gcongr
    _ = 3 * 2 ^ 1022 := hthree _
    _ < 4 * 2 ^ 1022 := mul_lt_mul_of_pos_right (by norm_num) hpos

/-! ## Points of the grid -/

theorem lastPlace_le_of_abs_lt {q : ℚ} {e : ℤ} (he : -1074 ≤ e) (hq : q ≠ 0)
    (h : |q| < 2 ^ (e + 53)) : lastPlace q ≤ e := by
  have hlog : Int.log 2 |q| < e + 53 :=
    (Int.lt_zpow_iff_log_lt (by norm_num) (abs_pos.mpr hq)).mp (by exact_mod_cast h)
  exact max_le (by omega) he

theorem le_lastPlace_of_le_abs {q : ℚ} {e : ℤ} (hq : q ≠ 0) (h : 2 ^ (e + 52) ≤ |q|) :
    e ≤ lastPlace q := by
  have hlog : e + 52 ≤ Int.log 2 |q| :=
    (Int.zpow_le_iff_le_log (by norm_num) (abs_pos.mpr hq)).mp (by exact_mod_cast h)
  exact le_max_of_le_left (by omega)

theorem nearestBinary_eq_self_of_lastPlace_le {n : ℤ} {e : ℤ} {q : ℚ} (hq : q = n * 2 ^ e)
    (he : lastPlace q ≤ e) : nearestBinary q = q := by
  have hpos := two_zpow_pos (lastPlace q)
  obtain ⟨k, hk⟩ := Int.eq_ofNat_of_zero_le (sub_nonneg.mpr he)
  have hwhole : q / 2 ^ lastPlace q = ((n * 2 ^ k : ℤ) : ℚ) := by
    have hsplit : (2 : ℚ) ^ e = 2 ^ k * 2 ^ lastPlace q := by
      rw [← zpow_natCast, ← zpow_add₀ two_ne_zero, ← hk, sub_add_cancel]
    rw [div_eq_iff hpos.ne', Int.cast_mul, Int.cast_pow, Int.cast_ofNat, mul_assoc, ← hsplit]
    exact hq
  rw [nearestBinary, hwhole, nearestEven_intCast, ← hwhole, div_mul_cancel₀ q hpos.ne']

/-- An integer of at most 53 bits, scaled by a power of two that is not below the least spacing,
is a point of the grid. -/
theorem nearestBinary_eq_self {n : ℤ} {e : ℤ} {q : ℚ} (hq : q = n * 2 ^ e) (hn : |n| ≤ 2 ^ 53)
    (he : -1074 ≤ e) : nearestBinary q = q := by
  rcases eq_or_ne q 0 with rfl | hne
  · exact nearestBinary_zero
  have habs : |q| = |(n : ℚ)| * 2 ^ e := by
    rw [hq, abs_mul, abs_of_pos (two_zpow_pos e)]
  have hpow : ∀ k : ℤ, (2 : ℚ) ^ 53 * 2 ^ k = 2 ^ (k + 53) := fun k ↦ by
    rw [zpow_add₀ two_ne_zero, mul_comm]
    norm_num
  rcases lt_or_eq_of_le hn with hlt | heq
  · refine nearestBinary_eq_self_of_lastPlace_le hq (lastPlace_le_of_abs_lt he hne ?_)
    rw [habs, ← hpow]
    exact mul_lt_mul_of_pos_right (by exact_mod_cast hlt) (two_zpow_pos e)
  · -- The one integer of 54 bits is even.
    have hhalf : q = ((n / 2 : ℤ) : ℚ) * 2 ^ (e + 1) := by
      have heven : n = 2 * (n / 2) := by
        rcases (abs_eq (by positivity)).mp heq with rfl | rfl <;> rfl
      rw [hq, zpow_add_one₀ two_ne_zero]
      conv_lhs => rw [heven]
      push_cast
      ring
    refine nearestBinary_eq_self_of_lastPlace_le hhalf
      (lastPlace_le_of_abs_lt (by omega) hne ?_)
    rw [habs, ← hpow, zpow_add_one₀ two_ne_zero]
    have hcast : |(n : ℚ)| = 2 ^ 53 := by exact_mod_cast heq
    rw [hcast]
    have := two_zpow_pos e
    nlinarith

/-! ## No point is nearer -/

theorem abs_nearestBinary_sub_le_abs_sub_mul (q : ℚ) (n : ℤ) :
    |nearestBinary q - q| ≤ |n * 2 ^ lastPlace q - q| := by
  have hpos := two_zpow_pos (lastPlace q)
  have hscaled (m : ℤ) :
      |m * 2 ^ lastPlace q - q| = |q / 2 ^ lastPlace q - m| * 2 ^ lastPlace q := by
    rw [abs_sub_comm, ← abs_of_pos hpos, ← abs_mul, abs_of_pos hpos, sub_mul,
      div_mul_cancel₀ q hpos.ne']
  rw [nearestBinary, hscaled, hscaled]
  exact mul_le_mul_of_nonneg_right
    ((isNearestEven_nearestEven (q / 2 ^ lastPlace q)).abs_sub_le_abs_sub n) hpos.le

/-- Points of the grid that are no multiples of the spacing around `q` lie below a power of two that
is one and that does not exceed `q`. -/
theorem abs_nearestBinary_sub_le_abs_sub {g q : ℚ} (hq : 0 ≤ q) (hg : nearestBinary g = g) :
    |nearestBinary q - q| ≤ |g - q| := by
  rcases hq.eq_or_lt with rfl | hq
  · rw [nearestBinary_zero, sub_self, abs_zero]
    exact abs_nonneg _
  rcases le_or_gt (lastPlace q) (lastPlace g) with hle | hlt
  · -- The spacing around `g` is no finer, so `g` is a multiple of the one around `q`.
    obtain ⟨k, hk⟩ := Int.eq_ofNat_of_zero_le (sub_nonneg.mpr hle)
    have hmultiple : g
        = ((nearestEven (g / 2 ^ lastPlace g) * 2 ^ k : ℤ) : ℚ) * 2 ^ lastPlace q := by
      have hsplit : (2 : ℚ) ^ lastPlace g = 2 ^ k * 2 ^ lastPlace q := by
        rw [← zpow_natCast, ← zpow_add₀ two_ne_zero, ← hk, sub_add_cancel]
      rw [Int.cast_mul, Int.cast_pow, Int.cast_ofNat, mul_assoc, ← hsplit]
      exact hg.symm
    have hnearest :=
      abs_nearestBinary_sub_le_abs_sub_mul q (nearestEven (g / 2 ^ lastPlace g) * 2 ^ k)
    rwa [← hmultiple] at hnearest
  · -- The power of two from which the spacing around `q` holds lies between `g` and `q`.
    have hpow : ((2 ^ 52 : ℤ) : ℚ) * 2 ^ lastPlace q = 2 ^ (lastPlace q + 52) := by
      rw [zpow_add₀ two_ne_zero, mul_comm]
      norm_num
    have hbelow : (2 : ℚ) ^ (lastPlace q + 52) ≤ q := by
      have hleast := (neg_1074_le_lastPlace g).trans_lt hlt
      rw [lastPlace, lt_max_iff, or_iff_left (lt_irrefl _)] at hleast
      have hplace : lastPlace q + 52 = Int.log 2 q := by
        rw [lastPlace, max_eq_left hleast.le, sub_add_cancel, abs_of_pos hq]
      rw [hplace]
      exact_mod_cast Int.zpow_log_le_self one_lt_two hq
    have hsmall : |g| < 2 ^ (lastPlace q + 52) := by
      rcases eq_or_ne g 0 with rfl | hne
      · rw [abs_zero]
        exact two_zpow_pos _
      · exact not_le.mp fun h ↦ absurd (le_lastPlace_of_le_abs hne h) (not_le.mpr hlt)
    have hnearest := abs_nearestBinary_sub_le_abs_sub_mul q (2 ^ 52)
    rw [hpow] at hnearest
    have hg' := (le_abs_self g).trans hsmall.le
    calc |nearestBinary q - q| ≤ |2 ^ (lastPlace q + 52) - q| := hnearest
      _ = q - 2 ^ (lastPlace q + 52) := by rw [abs_of_nonpos (sub_nonpos.mpr hbelow), neg_sub]
      _ ≤ q - g := sub_le_sub_left hg' q
      _ = |g - q| := by rw [abs_of_nonpos (sub_nonpos.mpr (hg'.trans hbelow)), neg_sub]

/-- **No point of the grid is nearer.** -/
theorem abs_nearestBinary_sub_le_of_grid {g : ℚ} (hg : nearestBinary g = g) (q : ℚ) :
    |nearestBinary q - q| ≤ |g - q| := by
  rcases le_total 0 q with hq | hq
  · exact abs_nearestBinary_sub_le_abs_sub hq hg
  · have hneg : nearestBinary (-g) = -g := by rw [nearestBinary_neg, hg]
    have h := abs_nearestBinary_sub_le_abs_sub (neg_nonneg.mpr hq) hneg
    rwa [nearestBinary_neg, neg_sub_neg, neg_sub_neg, abs_sub_comm, abs_sub_comm q] at h

/-! ## Order -/

section order

variable {p q : ℚ}

/-- A multiple of a spacing that bounds a number from one side bounds its nearest multiple, too. -/
theorem nearestEven_mul_le {n : ℤ} {e : ℤ} (h : q ≤ n * 2 ^ e) :
    (nearestEven (q / 2 ^ e) : ℚ) * 2 ^ e ≤ n * 2 ^ e := by
  have hpos := two_zpow_pos e
  have hle : nearestEven (q / 2 ^ e) ≤ n :=
    IsNearestEven.mono ((div_le_iff₀ hpos).mpr h) (isNearestEven_nearestEven _) (.intCast n)
  exact mul_le_mul_of_nonneg_right (by exact_mod_cast hle) hpos.le

theorem le_nearestEven_mul {n : ℤ} {e : ℤ} (h : n * 2 ^ e ≤ q) :
    (n : ℚ) * 2 ^ e ≤ nearestEven (q / 2 ^ e) * 2 ^ e := by
  have hpos := two_zpow_pos e
  have hle : n ≤ nearestEven (q / 2 ^ e) :=
    IsNearestEven.mono ((le_div_iff₀ hpos).mpr h) (.intCast n) (isNearestEven_nearestEven _)
  exact mul_le_mul_of_nonneg_right (by exact_mod_cast hle) hpos.le

theorem lastPlace_mono (hp : 0 < p) (hpq : p ≤ q) : lastPlace p ≤ lastPlace q := by
  rw [lastPlace, lastPlace, abs_of_pos hp, abs_of_pos (hp.trans_le hpq)]
  exact max_le_max (sub_le_sub_right (Int.log_mono_right hp hpq) 52) le_rfl

/-- Rounding keeps the order. Where the spacing grows between two numbers, a power of two lies
between them that is a multiple of either spacing. -/
theorem nearestBinary_mono (hp : 0 ≤ p) (hpq : p ≤ q) : nearestBinary p ≤ nearestBinary q := by
  rcases hp.eq_or_lt with rfl | hp
  · rw [nearestBinary_zero]
    exact nearestBinary_nonneg hpq
  rcases (lastPlace_mono hp hpq).eq_or_lt with heq | hlt
  · rw [nearestBinary, nearestBinary, heq]
    have hpos := two_zpow_pos (lastPlace q)
    have hle := IsNearestEven.mono (div_le_div_of_nonneg_right hpq hpos.le)
      (isNearestEven_nearestEven (p / 2 ^ lastPlace q)) (isNearestEven_nearestEven _)
    exact mul_le_mul_of_nonneg_right (by exact_mod_cast hle) hpos.le
  · -- The end of the finer spacing and the beginning of the coarser one lie between the two.
    have hq := hp.trans_le hpq
    have hpow (k : ℕ) (e : ℤ) : ((2 ^ k : ℤ) : ℚ) * 2 ^ e = 2 ^ (e + k) := by
      rw [Int.cast_pow, Int.cast_ofNat, zpow_add₀ two_ne_zero, zpow_natCast, mul_comm]
    have hplace : Int.log 2 p - 52 ≤ lastPlace p := by
      rw [lastPlace, abs_of_pos hp]
      exact le_max_left _ _
    have hplace' : lastPlace q = Int.log 2 q - 52 := by
      have hleast := (neg_1074_le_lastPlace p).trans_lt hlt
      rw [lastPlace, abs_of_pos hq] at hleast ⊢
      exact max_eq_left (lt_max_iff.mp hleast |>.resolve_right (lt_irrefl _)).le
    have hbelow : p ≤ ((2 ^ 53 : ℤ) : ℚ) * 2 ^ lastPlace p := by
      rw [hpow]
      exact (Int.lt_zpow_succ_log_self one_lt_two p).le.trans
        (zpow_le_zpow_right₀ one_le_two (by omega))
    have habove : ((2 ^ 52 : ℤ) : ℚ) * 2 ^ lastPlace q ≤ q := by
      rw [hpow, hplace']
      simpa using Int.zpow_log_le_self one_lt_two hq
    have hbetween :
        ((2 ^ 53 : ℤ) : ℚ) * 2 ^ lastPlace p ≤ ((2 ^ 52 : ℤ) : ℚ) * 2 ^ lastPlace q := by
      rw [hpow, hpow]
      exact zpow_le_zpow_right₀ one_le_two (by omega)
    exact ((nearestEven_mul_le hbelow).trans hbetween).trans (le_nearestEven_mul habove)

theorem abs_nearestBinary (q : ℚ) : |nearestBinary q| = nearestBinary |q| := by
  rcases le_total 0 q with hq | hq
  · rw [abs_of_nonneg hq, abs_of_nonneg (nearestBinary_nonneg hq)]
  · rw [abs_of_nonpos hq, ← abs_neg, ← nearestBinary_neg,
      abs_of_nonneg (nearestBinary_nonneg (neg_nonneg.mpr hq))]

theorem abs_nearestBinary_mono (h : |p| ≤ |q|) : |nearestBinary p| ≤ |nearestBinary q| := by
  rw [abs_nearestBinary, abs_nearestBinary]
  exact nearestBinary_mono (abs_nonneg p) h

end order

/-! ## The end of the range -/

/-- Half way between the greatest finite float and the next power of two, rounding goes to the
power, whose significand is even. -/
theorem nearestBinary_halfway : nearestBinary (2 ^ 1024 - 2 ^ 970) = 2 ^ 1024 := by
  have hpos := two_zpow_pos 970
  have hpow (k : ℕ) : (2 : ℚ) ^ (970 + k : ℕ) = 2 ^ k * 2 ^ (970 : ℤ) := by
    rw [pow_add, mul_comm]
    rfl
  have hhalfway : (2 : ℚ) ^ 1024 - 2 ^ 970 = (2 ^ 54 - 1) * 2 ^ (970 : ℤ) := by
    rw [hpow 54, hpow 0, pow_zero, sub_mul]
  have hspacing : (2 : ℚ) ^ (971 : ℤ) = 2 * 2 ^ (970 : ℤ) := hpow 1
  have habs : |(2 : ℚ) ^ 1024 - 2 ^ 970| = (2 ^ 54 - 1) * 2 ^ (970 : ℤ) := by
    rw [hhalfway, abs_of_pos (mul_pos (by norm_num) hpos)]
  have hplace : lastPlace (2 ^ 1024 - 2 ^ 970) = 971 := by
    have hne : (2 : ℚ) ^ 1024 - 2 ^ 970 ≠ 0 := by
      rw [← abs_pos, habs]
      exact mul_pos (by norm_num) hpos
    refine le_antisymm (lastPlace_le_of_abs_lt (by norm_num) hne ?_)
      (le_lastPlace_of_le_abs hne ?_)
    · rw [habs]
      change _ < (2 : ℚ) ^ (970 + 54 : ℕ)
      rw [hpow]
      exact mul_lt_mul_of_pos_right (by norm_num) hpos
    · rw [habs]
      change (2 : ℚ) ^ (970 + 53 : ℕ) ≤ _
      rw [hpow]
      exact mul_le_mul_of_nonneg_right (by norm_num) hpos.le
  have hquotient : ((2 : ℚ) ^ 1024 - 2 ^ 970) / 2 ^ (971 : ℤ) = 2 ^ 53 - 1 / 2 := by
    rw [hhalfway, hspacing, div_eq_iff (by positivity)]
    ring
  have hnearest : nearestEven (2 ^ 53 - 1 / 2) = 2 ^ 53 :=
    nearestEven_eq (Or.inr ⟨by norm_num, by decide⟩)
  rw [nearestBinary, hplace, hquotient, hnearest, hspacing]
  refine Eq.trans ?_ (hpow 54).symm
  rw [← mul_assoc]
  norm_num

/-- Which numbers are rounded out of the range of finite floats. -/
theorem two_pow_le_abs_nearestBinary_iff {q : ℚ} :
    2 ^ 1024 ≤ |nearestBinary q| ↔ 2 ^ 1024 - 2 ^ 970 ≤ |q| := by
  constructor
  · intro h
    by_contra hlt
    rw [not_le] at hlt
    rcases eq_or_ne q 0 with rfl | hq
    · rw [nearestBinary_zero, abs_zero] at h
      exact absurd h (not_le.mpr (by positivity))
    have hplace : lastPlace q ≤ 971 := by
      refine lastPlace_le_of_abs_lt (by norm_num) hq ?_
      exact hlt.trans (sub_lt_self _ (by positivity))
    have herror : |nearestBinary q - q| ≤ 2 ^ 970 :=
      calc |nearestBinary q - q| ≤ 2 ^ lastPlace q / 2 := abs_nearestBinary_sub_le_half_place q
        _ ≤ 2 ^ (971 : ℤ) / 2 :=
          div_le_div_of_nonneg_right (zpow_le_zpow_right₀ one_le_two hplace) two_pos.le
        _ = 2 ^ 970 := by
          rw [div_eq_iff two_ne_zero, ← pow_succ]
          rfl
    refine absurd h (not_le.mpr ?_)
    calc |nearestBinary q| ≤ |nearestBinary q - q| + |q| :=
          sub_le_iff_le_add.mp (abs_sub_abs_le_abs_sub _ _)
      _ < 2 ^ 970 + (2 ^ 1024 - 2 ^ 970) := add_lt_add_of_le_of_lt herror hlt
      _ = 2 ^ 1024 := add_sub_cancel _ _
  · intro h
    have hpos : (0 : ℚ) ≤ 2 ^ 1024 - 2 ^ 970 :=
      sub_nonneg.mpr (pow_le_pow_right₀ one_le_two (by norm_num))
    rw [abs_nearestBinary, ← nearestBinary_halfway]
    exact nearestBinary_mono hpos h

end Engraving
