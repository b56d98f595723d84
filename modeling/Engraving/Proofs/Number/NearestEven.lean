import Engraving.Number.Exact
import Mathlib.Algebra.Order.Field.Basic
import Mathlib.Algebra.Order.Ring.Rat
import Mathlib.Data.Nat.Cast.Order.Field
import Mathlib.Tactic.FieldSimp
import Mathlib.Tactic.Linarith
import Mathlib.Tactic.NormNum
import Mathlib.Tactic.Ring

/-!
# Nearest integers

Rounding to the nearest integer with ties to even, as a relation between a rational number and an
integer. The relation determines the integer, respects the order and the sign, and holds of the
quotient that `roundDiv` computes; so everything that is known about printed decimals and about
float significands comes down to these few facts.
-/

namespace Engraving

/-- The integer `n` is nearest to `q`, and it is even when a neighbour is as near. -/
def IsNearestEven (q : ℚ) (n : ℤ) : Prop := |q - n| < 1 / 2 ∨ |q - n| = 1 / 2 ∧ Even n

namespace IsNearestEven

variable {p q : ℚ} {m n : ℤ}

theorem abs_sub_le (h : IsNearestEven q n) : |q - n| ≤ 1 / 2 := by
  rcases h with h | ⟨h, -⟩
  · exact h.le
  · exact h.le

theorem abs_sub_le_abs_sub (h : IsNearestEven q n) (m : ℤ) : |q - n| ≤ |q - m| := by
  rcases eq_or_ne m n with rfl | hne
  · exact le_rfl
  have hone : (1 : ℚ) ≤ |(m : ℚ) - n| := by
    exact_mod_cast Int.one_le_abs (sub_ne_zero.mpr hne)
  have hhalf := h.abs_sub_le
  have htri := abs_add_le ((m : ℚ) - q) (q - n)
  rw [sub_add_sub_cancel, abs_sub_comm (m : ℚ) q] at htri
  linarith

/-- What lies no farther from the integer than a number that it is nearest to. -/
theorem of_abs_sub_le (h : IsNearestEven p n) (hle : |q - n| ≤ |p - n|) : IsNearestEven q n := by
  rcases h with hlt | ⟨htie, heven⟩
  · exact .inl (hle.trans_lt hlt)
  · rcases (hle.trans_eq htie).lt_or_eq with hlt | heq
    · exact .inl hlt
    · exact .inr ⟨heq, heven⟩

theorem intCast (n : ℤ) : IsNearestEven n n := by
  left
  rw [sub_self, abs_zero]
  norm_num

theorem neg (h : IsNearestEven q n) : IsNearestEven (-q) (-n) := by
  have habs : |-q - ((-n : ℤ) : ℚ)| = |q - n| := by
    rw [Int.cast_neg, neg_sub_neg, abs_sub_comm]
  rw [IsNearestEven, habs]
  exact h.imp_right fun ⟨htie, heven⟩ ↦ ⟨htie, heven.neg⟩

/-- The greater of two numbers has no lesser nearest integer. If it had, both numbers would lie
half way between two neighbours, of which both cannot be even. -/
theorem mono (hpq : p ≤ q) (hp : IsNearestEven p m) (hq : IsNearestEven q n) : m ≤ n := by
  by_contra hlt
  have hsucc : (n : ℚ) + 1 ≤ m := by exact_mod_cast not_le.mp hlt
  have hpm := abs_le.mp hp.abs_sub_le
  have hqn := abs_le.mp hq.abs_sub_le
  have hp_eq : p - m = -(1 / 2) := by linarith [hpm.1, hqn.2]
  have hq_eq : q - n = 1 / 2 := by linarith [hpm.1, hqn.2]
  have hm : Even m := by
    rcases hp with h | ⟨-, h⟩
    · rw [hp_eq] at h
      norm_num at h
    · exact h
  have hn : Even n := by
    rcases hq with h | ⟨-, h⟩
    · rw [hq_eq] at h
      norm_num at h
    · exact h
  have hmn : m = n + 1 := by
    have : (m : ℚ) = n + 1 := by linarith
    exact_mod_cast this
  rw [hmn, Int.even_add_one] at hm
  exact hm hn

theorem unique (hm : IsNearestEven q m) (hn : IsNearestEven q n) : m = n :=
  le_antisymm (mono le_rfl hm hn) (mono le_rfl hn hm)

theorem nonneg (hq : 0 ≤ q) (h : IsNearestEven q n) : 0 ≤ n := by
  refine mono hq ?_ h
  exact_mod_cast intCast 0

end IsNearestEven

/-! ## The rounded quotient -/

theorem div_eq_quotient_add {num den : ℕ} (hden : 0 < den) :
    (num : ℚ) / den = (num / den : ℕ) + (num % den : ℕ) / den := by
  have hne : (den : ℚ) ≠ 0 := by exact_mod_cast hden.ne'
  have hsplit : (num : ℚ) = den * (num / den : ℕ) + (num % den : ℕ) := by
    exact_mod_cast (Nat.div_add_mod num den).symm
  rw [eq_comm, ← sub_eq_zero]
  field_simp
  linarith

theorem isNearestEven_roundDiv (num : ℕ) {den : ℕ} (hden : 0 < den) :
    IsNearestEven ((num : ℚ) / den) (roundDiv num den : ℕ) := by
  have hpos : (0 : ℚ) < den := by exact_mod_cast hden
  have hrest : num % den < den := Nat.mod_lt num hden
  rw [div_eq_quotient_add hden, roundDiv]
  generalize num / den = k
  generalize num % den = r at hrest
  have hshift : (k : ℚ) + r / den - ((k + 1 : ℕ) : ℤ) = -(1 - r / den) := by
    push_cast
    ring
  have hle : (r : ℚ) / den ≤ 1 := by
    rw [div_le_one hpos]
    exact_mod_cast hrest.le
  split_ifs with hlow hhigh
  · have hlow' : 2 * (r : ℚ) < den := by exact_mod_cast hlow
    left
    rw [Int.cast_natCast, add_sub_cancel_left, abs_of_nonneg (by positivity), div_lt_iff₀ hpos]
    linarith
  · have hhigh' : (den : ℚ) < 2 * r := by exact_mod_cast hhigh
    have hhalf : 1 / 2 < (r : ℚ) / den := by
      rw [lt_div_iff₀ hpos]
      linarith
    left
    rw [hshift, abs_neg, abs_of_nonneg (by linarith)]
    linarith
  · -- The rest is exactly half the denominator, so the parity of the quotient decides.
    have htie : 2 * (r : ℚ) = den := by
      exact_mod_cast le_antisymm (not_lt.mp hhigh) (not_lt.mp hlow)
    have hhalf : (r : ℚ) / den = 1 / 2 := by
      rw [div_eq_iff hpos.ne']
      linarith
    right
    rcases Nat.mod_two_eq_zero_or_one k with heven | hodd
    · rw [heven, Nat.add_zero, Int.cast_natCast, add_sub_cancel_left, hhalf]
      refine ⟨abs_of_pos (by norm_num), ?_⟩
      exact_mod_cast Nat.even_iff.mpr heven
    · rw [hodd, hshift, abs_neg, hhalf]
      refine ⟨by norm_num, ?_⟩
      have hsucc : Even (k + 1) := by
        rw [Nat.even_add_one, Nat.not_even_iff]
        exact hodd
      exact_mod_cast hsucc

/-! ## The nearest integer -/

/-- The integer nearest to `q`, a half going to the even neighbour. -/
def nearestEven (q : ℚ) : ℤ := Exact.signed (decide (q < 0)) (roundDiv q.num.natAbs q.den)

theorem isNearestEven_nearestEven (q : ℚ) : IsNearestEven q (nearestEven q) := by
  have habs : IsNearestEven |q| (roundDiv q.num.natAbs q.den : ℕ) := by
    have h := isNearestEven_roundDiv q.num.natAbs q.den_pos
    rwa [Nat.cast_natAbs, Int.cast_abs, ← Nat.abs_cast q.den, ← abs_div, Rat.num_div_den] at h
  rw [nearestEven]
  by_cases hq : q < 0
  · have h := habs.neg
    rw [abs_of_neg hq, neg_neg] at h
    simpa [Exact.signed, hq] using h
  · rw [abs_of_nonneg (not_lt.mp hq)] at habs
    simpa [Exact.signed, hq] using habs

theorem nearestEven_eq {q : ℚ} {n : ℤ} (h : IsNearestEven q n) : nearestEven q = n :=
  (isNearestEven_nearestEven q).unique h

@[simp] theorem nearestEven_intCast (n : ℤ) : nearestEven n = n :=
  nearestEven_eq (.intCast n)

theorem nearestEven_neg (q : ℚ) : nearestEven (-q) = -nearestEven q :=
  nearestEven_eq (isNearestEven_nearestEven q).neg

theorem nearestEven_mono {p q : ℚ} (h : p ≤ q) : nearestEven p ≤ nearestEven q :=
  (isNearestEven_nearestEven p).mono h (isNearestEven_nearestEven q)

theorem abs_sub_nearestEven_le (q : ℚ) : |q - nearestEven q| ≤ 1 / 2 :=
  (isNearestEven_nearestEven q).abs_sub_le

end Engraving
