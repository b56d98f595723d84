import Engraving.Proofs.Number.DecimalText

/-!
# Adding one decimal many times

When moves are joined, the float that is read from a decimal is added to itself time and again, and
the sum is printed with three places. What is printed is the exact multiple of the decimal. Sums
stay below `2²⁰`, so reading and every addition are off by `2⁻³²` at most; a hundred thousand of
either come to less than half of the last place.

A decimal may be zero, and then it still has a sign. The sign of the sum is not told by its value
there, so this case is settled by computing with the two zeros.
-/

namespace Engraving

def decimal (negative : Bool) (units : ℕ) : ℚ :=
  if negative then -((units : ℚ) / 10 ^ 3) else units / 10 ^ 3

/-- The float that a decimal of three places is read as. -/
def decimalReading (negative : Bool) (units : ℕ) : Float :=
  if negative then -decimalFloat units (-3) else decimalFloat units (-3)

/-- The sum of `n + 1` equal floats, from left to right. -/
def repeatedSum (x : Float) : ℕ → Float
  | 0 => x
  | n + 1 => repeatedSum x n + x

/-! ## Decimals -/

section decimal

variable (negative : Bool) (units : ℕ)

theorem value?_finite_three :
    (FixedPoint.finite negative units : FixedPoint 3).value? = some (decimal negative units) :=
  FixedPoint.value?_finite negative units

theorem abs_decimal : |decimal negative units| = units / 10 ^ 3 := by
  have hnonneg : (0 : ℚ) ≤ units / 10 ^ 3 := by positivity
  cases negative
  · exact abs_of_nonneg hnonneg
  · exact (abs_neg _).trans (abs_of_nonneg hnonneg)

theorem decimal_add (m n : ℕ) :
    decimal negative (m + n) = decimal negative m + decimal negative n := by
  cases negative
  · change ((m + n : ℕ) : ℚ) / 10 ^ 3 = m / 10 ^ 3 + n / 10 ^ 3
    push_cast
    ring
  · change -(((m + n : ℕ) : ℚ) / 10 ^ 3) = -(m / 10 ^ 3) + -(n / 10 ^ 3)
    push_cast
    ring

theorem decimal_mul (n : ℕ) : decimal negative (n * units) = n * decimal negative units := by
  cases negative
  · change ((n * units : ℕ) : ℚ) / 10 ^ 3 = n * (units / 10 ^ 3)
    push_cast
    ring
  · change -(((n * units : ℕ) : ℚ) / 10 ^ 3) = n * -(units / 10 ^ 3)
    push_cast
    ring

theorem decimal_eq_div : decimal negative units = (Exact.signed negative units : ℤ) / 10 ^ 3 := by
  cases negative
  · rfl
  · change -((units : ℚ) / 10 ^ 3) = (-(units : ℤ) : ℤ) / 10 ^ 3
    push_cast
    ring

theorem isRounded_decimalReading :
    IsRounded (decimalReading negative units) (decimal negative units) := by
  have hround : IsRounded (decimalFloat units (-3)) (units / 10 ^ 3) :=
    isRounded_decimalFloat units (by norm_num) (by norm_num)
  cases negative
  · exact hround
  · exact hround.neg

/-- The sign and the digits of a decimal other than zero are told by its value. -/
theorem eq_finite_of_value?_eq_decimal {d : FixedPoint 3} (hunits : 0 < units)
    (h : d.value? = some (decimal negative units)) : d = .finite negative units := by
  have hpos : (0 : ℚ) < units / 10 ^ 3 := by positivity
  cases d with
  | finite negative' units' =>
    by_cases hsign : negative' = negative
    · subst hsign
      rw [FixedPoint.finite_eq_of_value?_eq (h.trans (value?_finite_three _ _).symm)]
    · -- Only zeros of different signs have one value.
      exfalso
      have hnonneg : (0 : ℚ) ≤ units' / 10 ^ 3 := by positivity
      have hvalue := Option.some.inj ((value?_finite_three negative' units').symm.trans h)
      rw [decimal, decimal, Bool.eq_not_of_ne hsign] at hvalue
      cases negative <;> simp only [Bool.not_false, Bool.not_true, if_true, if_false,
        Bool.false_eq_true] at hvalue <;> linarith
  | infinite _ => cases h
  | undefined => cases h

end decimal

/-! ## The value of the sum -/

/-- Below `2²⁰` a rounded number is close to the exact one. -/
theorem IsRounded.exists_denotes_within {x : Float} {q : ℚ} (h : IsRounded x q)
    (hq : |q| ≤ 2 ^ 20) : ∃ r, Denotes x r ∧ |r - q| ≤ 1 / 2 ^ 32 := by
  obtain ⟨r, hr, herror⟩ := h.exists_denotes
    (hq.trans (pow_le_pow_right₀ one_le_two (by norm_num)))
  refine ⟨r, hr, herror.trans ?_⟩
  have hleast : (2 : ℚ) ^ (-1075 : ℤ) ≤ 2 ^ (-33 : ℤ) :=
    zpow_le_zpow_right₀ one_le_two (by norm_num)
  calc |q| * (2 : ℚ) ^ (-53 : ℤ) + 2 ^ (-1075 : ℤ)
      ≤ 2 ^ 20 * 2 ^ (-53 : ℤ) + 2 ^ (-33 : ℤ) := by gcongr
    _ = 1 / 2 ^ 32 := by norm_num

/-- Every copy that is added costs one rounding for its reading and one for the sum. -/
theorem exists_denotes_repeatedSum {x : Float} {v : ℚ} (hx : IsRounded x v) {n : ℕ}
    (hn : n + 1 ≤ 100000) (hsum : (n + 1) * |v| ≤ 1000000) :
    ∃ r, Denotes (repeatedSum x n) r ∧ |r - (n + 1) * v| ≤ (n + 1) / 2 ^ 31 := by
  have hone (n : ℕ) : |v| ≤ (n + 1) * |v| := le_mul_of_one_le_left (abs_nonneg v) (by simp)
  obtain ⟨y, hy, hread⟩ := hx.exists_denotes_within (by linarith [hone n])
  induction n with
  | zero =>
    refine ⟨y, hy, ?_⟩
    rw [Nat.cast_zero, zero_add, one_mul]
    exact hread.trans (by norm_num)
  | succ n ih =>
    have hcount : ((n + 1 : ℕ) : ℚ) + 1 ≤ 100000 := by exact_mod_cast hn
    have hsum' : (n + 1) * |v| + |v| ≤ 1000000 := by
      push_cast at hsum
      linarith
    obtain ⟨p, hp, herror⟩ := ih (by omega) (by linarith [abs_nonneg v])
    push_cast at hcount
    -- Up to `2 ^ 20` rounding costs so little that the errors add up to the bound.
    have hsize : |p + y| ≤ 2 ^ 20 := by
      have hexact : |(n + 1) * v| = (n + 1) * |v| := by
        rw [abs_mul, abs_of_nonneg (by positivity)]
      have hp' := abs_sub_abs_le_abs_sub p ((n + 1) * v)
      have hy' := abs_sub_abs_le_abs_sub y v
      have htri := abs_add_le p y
      rw [hexact] at hp'
      linarith
    obtain ⟨r, hr, hround⟩ := (isRounded_add hp hy).exists_denotes_within hsize
    refine ⟨r, hr, ?_⟩
    have hsplit : r - ((n + 1 : ℕ) + 1) * v
        = (r - (p + y)) + (p - (n + 1) * v) + (y - v) := by
      push_cast
      ring
    rw [hsplit]
    calc |(r - (p + y)) + (p - (n + 1) * v) + (y - v)|
        ≤ |r - (p + y)| + |p - (n + 1) * v| + |y - v| := abs_add_three _ _ _
      _ ≤ 1 / 2 ^ 32 + (n + 1) / 2 ^ 31 + 1 / 2 ^ 32 := by gcongr
      _ = ((n + 1 : ℕ) + 1) / 2 ^ 31 := by
        push_cast
        ring

/-! ## The sum as it is printed -/

theorem repeatedSum_decimalReading_zero (negative : Bool) (n : ℕ) :
    repeatedSum (decimalReading negative 0) n = decimalReading negative 0 := by
  have hzero : decimalReading negative 0 + decimalReading negative 0
      = decimalReading negative 0 := by cases negative <;> rfl
  induction n with
  | zero => rfl
  | succ n ih => rw [repeatedSum, ih, hzero]

/-- What is printed of a sum of equal decimals is their exact sum. -/
theorem ofFloat_repeatedSum (negative : Bool) {units n : ℕ} (hn : n + 1 ≤ 100000)
    (hsum : (n + 1) * units ≤ 1000000000) :
    FixedPoint.ofFloat 3 (repeatedSum (decimalReading negative units) n)
      = .finite negative ((n + 1) * units) := by
  rcases Nat.eq_zero_or_pos units with rfl | hunits
  · rw [repeatedSum_decimalReading_zero, mul_zero]
    cases negative <;> rfl
  have hsum' : ((n : ℚ) + 1) * units ≤ 1000000000 := by exact_mod_cast hsum
  have hn' : (n : ℚ) + 1 ≤ 100000 := by exact_mod_cast hn
  obtain ⟨r, hr, herror⟩ := exists_denotes_repeatedSum (isRounded_decimalReading negative units) hn
    (by rw [abs_decimal]; linarith)
  have htotal : (n + 1) * decimal negative units = decimal negative ((n + 1) * units) := by
    rw [decimal_mul, Nat.cast_add, Nat.cast_one]
  rw [htotal, decimal_eq_div] at herror
  refine eq_finite_of_value?_eq_decimal _ _ (by positivity) ?_
  rw [FixedPoint.value?_ofFloat hr, nearestDecimal, decimal_eq_div]
  -- The exact sum is a multiple of the last place, and the float is closer to it than half of one.
  generalize Exact.signed negative ((n + 1) * units) = total at herror ⊢
  have hnear : IsNearestEven (r * 10 ^ 3) total := by
    left
    have hscaled : r * 10 ^ 3 - total = (r - total / 10 ^ 3) * 10 ^ 3 := by ring
    rw [hscaled, abs_mul, abs_of_pos (by norm_num : (0 : ℚ) < 10 ^ 3)]
    calc |r - total / 10 ^ 3| * 10 ^ 3 ≤ ((n : ℚ) + 1) / 2 ^ 31 * 10 ^ 3 := by gcongr
      _ ≤ 100000 / 2 ^ 31 * 10 ^ 3 := by gcongr
      _ < 1 / 2 := by norm_num
  rw [nearestEven_eq hnear]

end Engraving
