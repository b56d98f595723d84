import Engraving.Proofs.Number.BinaryGrid
import Engraving.Proofs.Number.Packing

/-!
# Rounding a significand

The arithmetic of floats ends in one step: a significand that may be too long, with two more bits
that tell where the exact result lies between it and the next one, is shifted to the grid of the
result and rounded. What the two bits say is made a statement about the exact result here, and the
step is shown to give `nearestBinary` of it.
-/

open Float.Model (Format UnpackedFloat totalExponent)
open Float.Model.UnpackedFloat

namespace Engraving

/-! ## What the residual bits tell -/

/-- The number `x` lies where the mantissa and the residual bits say. -/
def Locates (em : ExtendedMantissa) (x : ℚ) : Prop :=
  match em.roundBit, em.stickyBit with
  | false, false => x = em.mantissa
  | false, true => em.mantissa < x ∧ x < em.mantissa + 1 / 2
  | true, false => x = em.mantissa + 1 / 2
  | true, true => em.mantissa + 1 / 2 < x ∧ x < em.mantissa + 1

namespace Locates

variable {em : ExtendedMantissa} {x : ℚ}

theorem bounds (h : Locates em x) : em.mantissa ≤ x ∧ x < em.mantissa + 1 := by
  obtain ⟨m, r, t⟩ := em
  cases r <;> cases t <;> simp only [Locates] at h
  · exact ⟨h.ge, by linarith⟩
  · exact ⟨h.1.le, by linarith [h.2]⟩
  · exact ⟨by linarith, by linarith⟩
  · exact ⟨by linarith [h.1], h.2⟩

theorem isNearestEven (h : Locates em x) : IsNearestEven x (em.roundedMantissa : ℕ) := by
  obtain ⟨m, r, t⟩ := em
  cases r <;> cases t <;> simp only [Locates] at h
  · rw [h]
    exact_mod_cast IsNearestEven.intCast m
  · left
    change |x - ((m : ℕ) : ℤ)| < 1 / 2
    rw [Int.cast_natCast, abs_of_pos (by linarith [h.1])]
    linarith [h.2]
  · -- Half way: the mantissa is rounded up just when it is odd.
    right
    change |x - ((m + m % 2 : ℕ) : ℤ)| = 1 / 2 ∧ Even ((m + m % 2 : ℕ) : ℤ)
    rw [h]
    rcases Nat.mod_two_eq_zero_or_one m with heven | hodd
    · rw [heven, Nat.add_zero, Int.cast_natCast, add_sub_cancel_left]
      exact ⟨abs_of_pos (by norm_num), by exact_mod_cast Nat.even_iff.mpr heven⟩
    · have hsucc : Even (m + 1) := by
        rw [Nat.even_add_one, Nat.not_even_iff]
        exact hodd
      have hshift : (m : ℚ) + 1 / 2 - ((m + 1 : ℕ) : ℤ) = -(1 / 2) := by
        push_cast
        ring
      rw [hodd, hshift, abs_neg]
      exact ⟨abs_of_pos (by norm_num), by exact_mod_cast hsucc⟩
  · left
    change |x - ((m + 1 : ℕ) : ℤ)| < 1 / 2
    push_cast
    rw [abs_lt]
    constructor <;> linarith [h.1, h.2]

theorem shiftRightOne (h : Locates em x) : Locates em.shiftRightOne (x / 2) := by
  obtain ⟨m, r, t⟩ := em
  have hsplit : (m : ℚ) = 2 * (m / 2 : ℕ) + (m % 2 : ℕ) := by
    exact_mod_cast (Nat.div_add_mod m 2).symm
  rcases Nat.mod_two_eq_zero_or_one m with heven | hodd
  · have hround : (m % 2 != 0) = false := by rw [heven]; rfl
    rw [heven, Nat.cast_zero, add_zero] at hsplit
    cases r <;> cases t <;>
      simp only [Locates, ExtendedMantissa.shiftRightOne, hround, Bool.or_false, Bool.or_true]
        at h ⊢
    · linarith
    all_goals constructor <;> linarith
  · have hround : (m % 2 != 0) = true := by rw [hodd]; rfl
    rw [hodd, Nat.cast_one] at hsplit
    cases r <;> cases t <;>
      simp only [Locates, ExtendedMantissa.shiftRightOne, hround, Bool.or_false, Bool.or_true]
        at h ⊢
    · linarith
    all_goals constructor <;> linarith

theorem shiftRight (h : Locates em x) (n : ℕ) : Locates (em >>> n) (x / 2 ^ n) := by
  change Locates (n.repeat ExtendedMantissa.shiftRightOne em) _
  induction n with
  | zero => simpa [Nat.repeat] using h
  | succ n ih =>
    rw [Nat.repeat, pow_succ, ← div_div]
    exact ih.shiftRightOne

end Locates

theorem locates_exact (m : ℕ) : Locates (.ofMantissaAndAccuracy m .exact) m := rfl

private theorem mantissa_ofMantissaAndAccuracy (m : ℕ) (acc : Accuracy) :
    (ExtendedMantissa.ofMantissaAndAccuracy m acc).mantissa = m := by
  match acc with
  | .exact => rfl
  | .inexact .lt => rfl
  | .inexact .eq => rfl
  | .inexact .gt => rfl

/-! ## The rounding step -/

private theorem targetExponent_eq (t : ℤ) :
    Format.binary64.targetExponent t = max (t - 53) (-1074) := rfl

private theorem shiftToExponent_eq (m : ℕ) (e : ℤ) (acc : Accuracy) {target : ℤ}
    (h : e ≤ target) :
    shiftToExponent m e acc target
      = (ExtendedMantissa.ofMantissaAndAccuracy m acc >>> (target - e).toNat, target) := by
  rw [shiftToExponent]
  congr 1
  omega

variable {q : ℚ} {m : ℕ} {e : ℤ} {acc : Accuracy}

/-- The exponent that a result is brought to is that of the grid around it. -/
theorem targetExponent_eq_lastPlace (hq : 0 < q)
    (h : Locates (.ofMantissaAndAccuracy m acc) (q / 2 ^ e)) (he : 0 < m ∨ e ≤ lastPlace q) :
    Format.binary64.targetExponent (totalExponent m e) = lastPlace q := by
  have hpos := two_zpow_pos e
  obtain ⟨hlow, hhigh⟩ := h.bounds
  rw [mantissa_ofMantissaAndAccuracy] at hlow hhigh
  rw [le_div_iff₀ hpos] at hlow
  rw [div_lt_iff₀ hpos] at hhigh
  rw [targetExponent_eq, totalExponent, lastPlace, abs_of_pos hq]
  rw [lastPlace, abs_of_pos hq] at he
  have hlt : Int.log 2 q < (m.log2 : ℤ) + 1 + e := by
    refine (Int.lt_zpow_iff_log_lt (by norm_num) hq).mp (hhigh.trans_le ?_)
    rw [Nat.cast_ofNat, zpow_add₀ two_ne_zero]
    refine mul_le_mul_of_nonneg_right ?_ hpos.le
    have hsucc : m + 1 ≤ 2 ^ (m.log2 + 1) := Nat.lt_log2_self
    exact_mod_cast hsucc
  rcases Nat.eq_zero_or_pos m with rfl | hm
  · -- No bit is left, so the result is less than a unit and the least exponent is the target.
    have hfine := he.resolve_left (lt_irrefl 0)
    rw [Nat.log2_zero] at hlt ⊢
    omega
  · have hle : (m.log2 : ℤ) + e ≤ Int.log 2 q := by
      refine (Int.zpow_le_iff_le_log (by norm_num) hq).mp (le_trans ?_ hlow)
      rw [Nat.cast_ofNat, zpow_add₀ two_ne_zero]
      refine mul_le_mul_of_nonneg_right ?_ hpos.le
      exact_mod_cast Nat.log2_self_le hm.ne'
    omega

/-- A significand that has at most 53 bits is not shifted, and the one of 54 bits that rounding may
lead to is halved. -/
private theorem shiftToTargetExponent_rounded {r : ℕ} (hr : r ≤ 2 ^ 53) (he : -1074 ≤ e) :
    (r < 2 ^ 53 ∧ shiftToTargetExponent Format.binary64 r e .exact = (⟨r, false, false⟩, e)) ∨
    (r = 2 ^ 53 ∧
      shiftToTargetExponent Format.binary64 r e .exact = (⟨2 ^ 52, false, false⟩, e + 1)) := by
  rcases lt_or_eq_of_le hr with hlt | rfl
  · left
    refine ⟨hlt, ?_⟩
    have hlog : r.log2 ≤ 52 := by
      rcases Nat.eq_zero_or_pos r with rfl | hpos
      · decide
      · have := (Nat.log2_lt hpos.ne').mpr hlt
        omega
    have hshift : (Format.binary64.targetExponent (totalExponent r e) - e).toNat = 0 := by
      rw [targetExponent_eq, totalExponent]
      omega
    rw [shiftToTargetExponent, shiftToExponent, hshift, Nat.cast_zero, add_zero]
    rfl
  · right
    refine ⟨rfl, ?_⟩
    have htarget : Format.binary64.targetExponent (totalExponent (2 ^ 53) e) = e + 1 := by
      rw [targetExponent_eq, totalExponent, Nat.log2_two_pow]
      omega
    rw [shiftToTargetExponent, htarget, shiftToExponent_eq _ _ _ (by omega),
      add_sub_cancel_left]
    rfl

private theorem exists_shiftToTargetExponent (hq : 0 < q)
    (h : Locates (.ofMantissaAndAccuracy m acc) (q / 2 ^ e)) (he : e ≤ lastPlace q) :
    ∃ em, shiftToTargetExponent Format.binary64 m e acc = (em, lastPlace q) ∧
      Locates em (q / 2 ^ lastPlace q) := by
  refine ⟨ExtendedMantissa.ofMantissaAndAccuracy m acc >>> (lastPlace q - e).toNat, ?_, ?_⟩
  · rw [shiftToTargetExponent, targetExponent_eq_lastPlace hq h (.inr he),
      shiftToExponent_eq _ _ _ he]
  · have hshift := h.shiftRight (lastPlace q - e).toNat
    have hpow : (2 : ℚ) ^ lastPlace q = 2 ^ e * 2 ^ (lastPlace q - e).toNat := by
      rw [← zpow_natCast, ← zpow_add₀ two_ne_zero]
      congr 1
      omega
    rwa [div_div, ← hpow] at hshift

private theorem significand_le {r : ℕ} (hq : 0 < q)
    (hnear : IsNearestEven (q / 2 ^ lastPlace q) r) : r ≤ 2 ^ 53 := by
  have hle : q / 2 ^ lastPlace q ≤ ((2 ^ 53 : ℤ) : ℚ) := by
    have hlog := Int.lt_zpow_succ_log_self (b := 2) (by norm_num) q
    rw [Nat.cast_ofNat] at hlog
    rw [div_le_iff₀ (two_zpow_pos _), Int.cast_pow, Int.cast_ofNat, ← zpow_natCast,
      ← zpow_add₀ two_ne_zero]
    refine hlog.le.trans (zpow_le_zpow_right₀ one_le_two ?_)
    have : Int.log 2 q - 52 ≤ lastPlace q := by
      rw [lastPlace, abs_of_pos hq]
      exact le_max_left _ _
    omega
  have hmono := hnear.mono hle (.intCast _)
  exact_mod_cast hmono

private theorem le_significand_or {r : ℕ} (hq : 0 < q)
    (hnear : IsNearestEven (q / 2 ^ lastPlace q) r) :
    2 ^ 52 ≤ r ∨ lastPlace q = -1074 := by
  -- Unless the grid is at its finest, it leaves 53 bits to the result before rounding.
  rcases max_cases (Int.log 2 |q| - 52) (-1074) with ⟨hmax, -⟩ | ⟨hmax, -⟩
  · left
    have hge : ((2 ^ 52 : ℤ) : ℚ) ≤ q / 2 ^ lastPlace q := by
      have hlog := Int.zpow_log_le_self (b := 2) (by norm_num) hq
      rw [Nat.cast_ofNat] at hlog
      rw [le_div_iff₀ (two_zpow_pos _), Int.cast_pow, Int.cast_ofNat, ← zpow_natCast,
        ← zpow_add₀ two_ne_zero]
      refine (zpow_le_zpow_right₀ one_le_two ?_).trans hlog
      rw [lastPlace, hmax, abs_of_pos hq]
      omega
    have hmono := IsNearestEven.mono hge (.intCast _) hnear
    exact_mod_cast hmono
  · exact Or.inr hmax

/-- **The rounding step.** From a significand that locates the exact result `q`, no coarser than the
grid around `q`, comes the point of the grid that is nearest to `q`, in canonical parts. -/
theorem roundWithAccuracy_eq (s : Sign) (hq : 0 < q)
    (h : Locates (.ofMantissaAndAccuracy m acc) (q / 2 ^ e)) (he : e ≤ lastPlace q) :
    (nearestBinary q = 0 ∧ roundWithAccuracy Format.binary64 s m e acc = .zero s) ∨
    ∃ (m' : ℕ) (e' : ℤ) (hm' : 0 < m'), IsCanonical m' e' ∧ nearestBinary q = m' * 2 ^ e' ∧
      roundWithAccuracy Format.binary64 s m e acc = .finite s m' e' hm' := by
  have hleast := neg_1074_le_lastPlace q
  obtain ⟨em, hfirst, hloc⟩ := exists_shiftToTargetExponent hq h he
  have hnear := hloc.isNearestEven
  have hvalue : nearestBinary q = em.roundedMantissa * 2 ^ lastPlace q := by
    rw [nearestBinary, nearestEven_eq hnear, Int.cast_natCast]
  rw [roundWithAccuracy, hfirst]
  dsimp only
  rcases shiftToTargetExponent_rounded (significand_le hq hnear) hleast with
    ⟨hlt, hsecond⟩ | ⟨htop, hsecond⟩
  · rw [hsecond]
    rcases Nat.eq_zero_or_pos em.roundedMantissa with hzero | hpos
    · left
      rw [hvalue, hzero, Nat.cast_zero, zero_mul]
      exact ⟨rfl, dif_pos rfl⟩
    · right
      exact ⟨em.roundedMantissa, lastPlace q, hpos,
        ⟨hpos, hlt, hleast, le_significand_or hq hnear⟩, hvalue, dif_neg hpos.ne'⟩
  · -- The significand has become a power of two, which is halved.
    right
    rw [hsecond]
    refine ⟨2 ^ 52, lastPlace q + 1, by norm_num,
      ⟨by norm_num, by norm_num, by omega, Or.inl le_rfl⟩, ?_, rfl⟩
    rw [hvalue, htop, zpow_add_one₀ two_ne_zero]
    push_cast
    ring

end Engraving
