import Engraving.Proofs.Number.FloatValue

/-!
# Float arithmetic as rounded rational arithmetic

Each operation on finite floats has one statement here: its result is the exact result, rounded. No
proof elsewhere opens the arithmetic of floats again. Changing the sign is exact, and a difference
is a sum with the sign of its second part changed. A result beyond the range is infinite, and what
is done to an infinity may have no result at all; when that is so is told at the end.
-/

open Float.Model (Format UnpackedFloat totalExponent)
open Float.Model.UnpackedFloat

namespace Engraving

variable {x y : Float} {a b : ℚ}

/-! ## Sign -/

/-- The exact number with the other sign. -/
def Exact.neg : Exact → Exact
  | .finite negative m e => .finite (!negative) m e
  | .infinite negative => .infinite (!negative)
  | .undefined => .undefined

private theorem stored_neg (x : Float.Model) : stored x.unpack.neg = x.unpack.neg := by
  match h : x.unpack with
  | .notANumber => exact stored_notANumber
  | .infinity s => exact stored_infinity (-s)
  | .zero s => exact stored_zero (-s)
  | .finite s m e hm =>
    obtain ⟨hcanonical, he⟩ := isCanonical_of_unpack h
    exact stored_finite hcanonical he

private theorem unpack_neg (x : Float) : (-x).toModel.unpack = x.toModel.unpack.neg :=
  stored_neg x.toModel

theorem ofFloat_neg (x : Float) : Exact.ofFloat (-x) = (Exact.ofFloat x).neg := by
  rw [ofFloat_eq_exactOf, ofFloat_eq_exactOf, unpack_neg]
  match x.toModel.unpack with
  | .notANumber => rfl
  | .infinity s => cases s <;> rfl
  | .zero s => cases s <;> rfl
  | .finite s m e hm => cases s <;> rfl

theorem Denotes.neg (hx : Denotes x a) : Denotes (-x) (-a) := by
  obtain ⟨negative, m, e, h, rfl⟩ := hx.exists_finite
  rw [Denotes, ofFloat_neg, h, Exact.neg, Exact.toRat?_finite]
  cases negative <;> simp

theorem Denotes.of_neg (hx : Denotes (-x) a) : Denotes x (-a) := by
  have htwice := hx.neg
  have hback : (Exact.ofFloat x).neg.neg = Exact.ofFloat x := by
    cases Exact.ofFloat x <;> simp [Exact.neg]
  rwa [Denotes, ofFloat_neg, ofFloat_neg, hback] at htwice

theorem IsRounded.neg (hx : IsRounded x a) : IsRounded (-x) (-a) := by
  rw [IsRounded, nearestBinary_neg, abs_neg]
  refine hx.imp (fun ⟨hsmall, hvalue⟩ ↦ ⟨hsmall, hvalue.neg⟩) fun ⟨hbig, hvalue⟩ ↦ ⟨hbig, ?_⟩
  have hne : a ≠ 0 := by
    rintro rfl
    rw [nearestBinary_zero, abs_zero] at hbig
    exact absurd hbig (not_le.mpr (by positivity))
  rw [ofFloat_neg, hvalue, Exact.neg]
  rcases lt_or_gt_of_ne hne with ha | ha
  · rw [decide_eq_true ha, decide_eq_false (neg_pos.mpr ha).le.not_gt]
    rfl
  · rw [decide_eq_true (neg_lt_zero.mpr ha), decide_eq_false ha.le.not_gt]
    rfl

/-! ## Sums and differences -/

private theorem unpackedRounded_finite {s : Sign} {m : ℕ} {e : ℤ} {hm : 0 < m}
    (h : IsCanonical m e) : UnpackedRounded (.finite s m e hm) (signedRat s (m * 2 ^ e)) := by
  right
  refine ⟨s, m, e, hm, h, ?_, rfl⟩
  rw [nearestBinary_signedRat, h.nearestBinary_eq]

private theorem unpackedRounded_zero (s : Sign) : UnpackedRounded (.zero s) 0 :=
  Or.inl ⟨nearestBinary_zero, s, rfl⟩

/-- A significand with more places, so that its last one has the exponent `target`. -/
private theorem apply_decreaseExponent (s : Sign) (m : ℕ) {e target : ℤ} (h : target ≤ e) :
    ((s.apply (decreaseExponent m e target).1 : ℤ) : ℚ) * 2 ^ target
      = signedRat s (m * 2 ^ e) := by
  have hvalue := shiftLeft_mul_two_zpow m e (e - target).toNat
  rw [Int.toNat_of_nonneg (sub_nonneg.mpr h), sub_sub_cancel] at hvalue
  rw [signedRat_apply, decreaseExponent, ← hvalue]
  cases s
  · exact neg_mul _ _
  · rfl

theorem isRounded_add (hx : Denotes x a) (hy : Denotes y b) : IsRounded (x + y) (a + b) := by
  change IsRounded (Float.ofModel (Float.Model.pack
    (UnpackedFloat.add Format.binary64 x.toModel.unpack y.toModel.unpack))) (a + b)
  apply UnpackedRounded.isRounded
  rcases hx.parts with ⟨rfl, s, hs⟩ | ⟨s, m, e, hm, hcanonical, -, rfl, hs⟩
  · rcases hy.parts with ⟨rfl, t, ht⟩ | ⟨t, n, f, hn, hcanonical', -, rfl, ht⟩
    · rw [hs, ht, add_zero, UnpackedFloat.add]
      split_ifs
      · exact unpackedRounded_zero s
      · exact unpackedRounded_zero .positive
    · rw [hs, ht, zero_add]
      exact unpackedRounded_finite hcanonical'
  · rcases hy.parts with ⟨rfl, t, ht⟩ | ⟨t, n, f, hn, hcanonical', -, rfl, ht⟩
    · rw [hs, ht, add_zero]
      exact unpackedRounded_finite hcanonical
    · rw [hs, ht, UnpackedFloat.add]
      dsimp only
      rw [← apply_decreaseExponent s m (min_le_left e f),
        ← apply_decreaseExponent t n (min_le_right e f), ← add_mul, ← Int.cast_add]
      exact unpackedRounded_normalize _ _ _

private theorem sub_eq_add_neg_unpacked (u v : UnpackedFloat) :
    UnpackedFloat.sub Format.binary64 u v = UnpackedFloat.add Format.binary64 u v.neg := by
  match u, v with
  | .notANumber, _ => rfl
  | .infinity _, .notANumber => rfl
  | .zero _, .notANumber => rfl
  | .finite .., .notANumber => rfl
  | .infinity _, .infinity _ => rfl
  | .infinity _, .zero _ => rfl
  | .infinity _, .finite .. => rfl
  | .zero _, .infinity _ => rfl
  | .finite .., .infinity _ => rfl
  | .zero _, .zero _ => rfl
  | .zero _, .finite .. => rfl
  | .finite .., .zero _ => rfl
  | .finite s m e _, .finite t n f _ =>
    rw [UnpackedFloat.sub, UnpackedFloat.neg, UnpackedFloat.add]
    dsimp only
    cases t
    · rw [show (-Sign.negative) = Sign.positive from rfl, Sign.apply, Sign.apply, sub_neg_eq_add]
    · rfl

theorem float_sub_eq_add_neg (x y : Float) : x - y = x + -y := by
  change Float.ofModel (Float.Model.pack
      (UnpackedFloat.sub Format.binary64 x.toModel.unpack y.toModel.unpack))
    = Float.ofModel (Float.Model.pack
      (UnpackedFloat.add Format.binary64 x.toModel.unpack (-y).toModel.unpack))
  rw [sub_eq_add_neg_unpacked, unpack_neg]

theorem isRounded_sub (hx : Denotes x a) (hy : Denotes y b) : IsRounded (x - y) (a - b) := by
  rw [float_sub_eq_add_neg, sub_eq_add_neg]
  exact isRounded_add hx hy.neg

/-! ## Products -/

/-- The product of two significands is never coarser than the grid around the product. -/
private theorem add_le_lastPlace {m n : ℕ} {e f : ℤ} (hm : IsCanonical m e)
    (hn : IsCanonical n f) : e + f ≤ lastPlace ((m * n : ℕ) * 2 ^ (e + f)) := by
  have hleast := neg_1074_le_lastPlace ((m * n : ℕ) * 2 ^ (e + f))
  -- With fewer bits than 53 in the product, both factors are subnormal, far below the grid.
  by_cases hnormal : 2 ^ 52 ≤ m * n
  · have hpos : (0 : ℚ) < (m * n : ℕ) * 2 ^ (e + f) :=
      mul_pos (by exact_mod_cast Nat.mul_pos hm.pos hn.pos) (two_zpow_pos _)
    refine le_lastPlace_of_le_abs hpos.ne' ?_
    rw [abs_of_pos hpos, add_comm, zpow_add₀ two_ne_zero]
    refine mul_le_mul_of_nonneg_right ?_ (two_zpow_pos _).le
    exact_mod_cast hnormal
  · have hm' : m ≤ m * n := Nat.le_mul_of_pos_right m hn.pos
    have hn' : n ≤ m * n := Nat.le_mul_of_pos_left n hm.pos
    have he := hm.normal_or_least.resolve_left (by omega)
    have hf := hn.normal_or_least.resolve_left (by omega)
    omega

theorem isRounded_mul (hx : Denotes x a) (hy : Denotes y b) : IsRounded (x * y) (a * b) := by
  change IsRounded (Float.ofModel (Float.Model.pack
    (UnpackedFloat.mul Format.binary64 x.toModel.unpack y.toModel.unpack))) (a * b)
  apply UnpackedRounded.isRounded
  rcases hx.parts with ⟨rfl, s, hs⟩ | ⟨s, m, e, hm, hcanonical, -, rfl, hs⟩
  · rw [hs, zero_mul]
    rcases hy.parts with ⟨-, t, ht⟩ | ⟨t, n, f, hn, -, -, -, ht⟩
    · rw [ht]
      exact unpackedRounded_zero _
    · rw [ht]
      exact unpackedRounded_zero _
  · rcases hy.parts with ⟨rfl, t, ht⟩ | ⟨t, n, f, hn, hcanonical', -, rfl, ht⟩
    · rw [hs, ht, mul_zero]
      exact unpackedRounded_zero _
    · have hvalue : (m : ℚ) * 2 ^ e * (n * 2 ^ f) = (m * n : ℕ) * 2 ^ (e + f) := by
        rw [zpow_add₀ two_ne_zero]
        push_cast
        ring
      rw [hs, ht, signedRat_mul, hvalue]
      exact unpackedRounded_exact _ (Nat.mul_pos hm hn) (add_le_lastPlace hcanonical hcanonical')

/-! ## Quotients -/

/-- The whole part of a quotient, with the place of the rest, locates the quotient. -/
private theorem locates_div (num : ℕ) {den : ℕ} (hden : 0 < den) :
    Locates (.ofMantissaAndAccuracy (num / den) (accuracyOfFraction (num % den) den))
      ((num : ℚ) / den) := by
  have hpos : (0 : ℚ) < den := by exact_mod_cast hden
  have hrest : ((num % den : ℕ) : ℚ) < den := by exact_mod_cast Nat.mod_lt num hden
  rw [div_eq_quotient_add hden, accuracyOfFraction]
  generalize num / den = k
  generalize num % den = r at hrest
  split_ifs with hzero
  · rw [hzero, Nat.cast_zero, zero_div, add_zero]
    exact locates_exact k
  have hr : (0 : ℚ) < r := by exact_mod_cast Nat.pos_of_ne_zero hzero
  have hfraction : 0 < (r : ℚ) / den := div_pos hr hpos
  rcases lt_trichotomy (2 * r) den with hlt | heq | hgt
  · rw [compare_lt_iff_lt.mpr hlt]
    have hhalf : (r : ℚ) / den < 1 / 2 := by
      have : 2 * (r : ℚ) < den := by exact_mod_cast hlt
      rw [div_lt_iff₀ hpos]
      linarith
    change (k : ℚ) < k + r / den ∧ k + (r : ℚ) / den < k + 1 / 2
    exact ⟨by linarith, by linarith⟩
  · rw [compare_eq_iff_eq.mpr heq]
    have hhalf : (r : ℚ) / den = 1 / 2 := by
      have : 2 * (r : ℚ) = den := by exact_mod_cast heq
      rw [div_eq_iff hpos.ne']
      linarith
    rw [hhalf]
    rfl
  · rw [compare_gt_iff_gt.mpr hgt]
    have hhalf : 1 / 2 < (r : ℚ) / den := by
      have : (den : ℚ) < 2 * r := by exact_mod_cast hgt
      rw [lt_div_iff₀ hpos]
      linarith
    have hone : (r : ℚ) / den < 1 := by
      rw [div_lt_one hpos]
      exact hrest
    change (k : ℚ) + 1 / 2 < k + r / den ∧ k + (r : ℚ) / den < k + 1
    exact ⟨by linarith, by linarith⟩

/-- The quotient of two significands, worked out to enough places. -/
theorem unpackedRounded_div (s t : Sign) {m n : ℕ} (e f : ℤ) (hm : 0 < m) (hn : 0 < n) :
    UnpackedRounded
      (UnpackedFloat.div Format.binary64 (.finite s m e hm) (.finite t n f hn))
      (signedRat (s / t) (m * 2 ^ e / (n * 2 ^ f))) := by
  have hmq : (0 : ℚ) < m := by exact_mod_cast hm
  have hnq : (0 : ℚ) < n := by exact_mod_cast hn
  have hnum : (0 : ℚ) < m * 2 ^ e := mul_pos hmq (two_zpow_pos e)
  have hden : (0 : ℚ) < n * 2 ^ f := mul_pos hnq (two_zpow_pos f)
  have hq : (0 : ℚ) < m * 2 ^ e / (n * 2 ^ f) := div_pos hnum hden
  rw [UnpackedFloat.div, divCore]
  dsimp only
  generalize htarget : min (e - f) (Format.binary64.targetExponent
    (totalExponent m e - totalExponent n f)) = target
  have hshift : target ≤ e - f := htarget ▸ min_le_left _ _
  have hscaled : (m : ℚ) * 2 ^ e / (n * 2 ^ f) / 2 ^ target
      = ((m <<< (e - f - target).toNat : ℕ) : ℚ) / n := by
    have hpow : (2 : ℚ) ^ e = 2 ^ (e - f - target).toNat * 2 ^ f * 2 ^ target := by
      rw [← zpow_natCast, ← zpow_add₀ two_ne_zero, ← zpow_add₀ two_ne_zero]
      congr 1
      omega
    have hf := (two_zpow_pos f).ne'
    have ht := (two_zpow_pos target).ne'
    rw [hpow, Nat.shiftLeft_eq]
    push_cast
    field_simp
  refine unpackedRounded_roundWithAccuracy _ hq ?_ ?_
  · rw [hscaled]
    exact locates_div _ hn
  · -- The quotient has at most one bit less than the lengths of the significands let expect.
    have hlog : (m.log2 : ℤ) + e - (n.log2 + 1 + f) ≤ Int.log 2 (m * 2 ^ e / (n * 2 ^ f) : ℚ) := by
      refine (Int.zpow_le_iff_le_log (by norm_num) hq).mp ?_
      rw [Nat.cast_ofNat, le_div_iff₀ hden, zpow_sub₀ two_ne_zero, div_mul_eq_mul_div,
        div_le_iff₀ (two_zpow_pos _), zpow_add₀ two_ne_zero, zpow_add₀ two_ne_zero,
        zpow_natCast]
      have hm2 : (2 : ℚ) ^ m.log2 ≤ m := by exact_mod_cast Nat.log2_self_le hm.ne'
      have hn2 : (n : ℚ) ≤ 2 ^ ((n.log2 : ℤ) + 1) := by
        have : n < 2 ^ (n.log2 + 1) := Nat.lt_log2_self
        exact_mod_cast this.le
      have he := (two_zpow_pos e).le
      have hf := (two_zpow_pos f).le
      gcongr
    have hle : target ≤ Format.binary64.targetExponent
        (totalExponent m e - totalExponent n f) := htarget ▸ min_le_right _ _
    rw [Format.targetExponent, totalExponent, totalExponent] at hle
    change target ≤ max (m.log2 + 1 + e - (n.log2 + 1 + f) - 53) (-1074) at hle
    rw [lastPlace, abs_of_pos hq]
    omega

theorem isRounded_div (hx : Denotes x a) (hy : Denotes y b) (hb : b ≠ 0) :
    IsRounded (x / y) (a / b) := by
  change IsRounded (Float.ofModel (Float.Model.pack
    (UnpackedFloat.div Format.binary64 x.toModel.unpack y.toModel.unpack))) (a / b)
  apply UnpackedRounded.isRounded
  rcases hy.parts with ⟨h0, -⟩ | ⟨t, n, f, hn, -, -, rfl, ht⟩
  · exact absurd h0 hb
  rcases hx.parts with ⟨rfl, s, hs⟩ | ⟨s, m, e, hm, -, -, rfl, hs⟩
  · rw [hs, ht, zero_div]
    exact unpackedRounded_zero _
  · rw [hs, ht, signedRat_div]
    exact unpackedRounded_div s t e f hm hn

theorem isRounded_quotientFloat (negative : Bool) (num : ℕ) {den : ℕ} (hden : 0 < den) :
    IsRounded (quotientFloat negative num den hden)
      (if negative then -((num : ℚ) / den) else num / den) := by
  have hsign : (if negative then -((num : ℚ) / den) else num / den)
      = signedRat (if negative then .negative else .positive) (num / den) := by
    cases negative <;> rfl
  rw [quotientFloat, hsign]
  generalize (if negative then Sign.negative else Sign.positive) = s
  apply UnpackedRounded.isRounded
  split_ifs with hnum
  · have hdiv := unpackedRounded_div s .positive 0 0 hnum hden
    have hs : s / Sign.positive = s := by cases s <;> rfl
    rwa [zpow_zero, mul_one, mul_one, hs] at hdiv
  · obtain rfl : num = 0 := by omega
    rw [Nat.cast_zero, zero_div]
    have hzero : signedRat s 0 = 0 := by
      cases s
      · exact neg_zero
      · rfl
    rw [hzero]
    exact unpackedRounded_zero s

/-! ## Numbers from integers and decimals -/

private theorem isRounded_toFloat (n : UInt64) : IsRounded n.toFloat n.toNat := by
  have h := (unpackedRounded_normalize (n.toNat : ℤ) 0 .positive).isRounded
  rw [zpow_zero, mul_one, Int.cast_natCast] at h
  exact h

/-- A natural number of at most 53 bits lies on the grid. -/
private theorem IsRounded.denotes_natCast {n : ℕ} (h : IsRounded x n) (hn : n ≤ 2 ^ 53) :
    Denotes x n := by
  have hgrid : nearestBinary (n : ℚ) = n :=
    nearestBinary_eq_self (n := n) (e := 0) (by simp) (by exact_mod_cast hn) (by norm_num)
  have hsmall : |nearestBinary (n : ℚ)| < 2 ^ 1024 := by
    rw [hgrid, Nat.abs_cast]
    have hlt : (n : ℚ) ≤ 2 ^ 53 := by exact_mod_cast hn
    exact hlt.trans_lt (pow_lt_pow_right₀ one_lt_two (by norm_num))
  have hvalue := h.denotes hsmall
  rwa [hgrid] at hvalue

private theorem denotes_toFloat {n : ℕ} (h : n < 2 ^ 53) : Denotes n.toUInt64.toFloat n := by
  have hn : n.toUInt64.toNat = n := by
    rw [UInt64.toNat_ofNat']
    omega
  have hround := isRounded_toFloat n.toUInt64
  rw [hn] at hround
  exact hround.denotes_natCast h.le

/-- The powers of ten in the table of the library are what they are said to be. -/
theorem denotes_powerOfTen :
    ∀ (k : ℕ) (hk : k < Float.exactlyRepresentablePowersOfTen.size),
      Denotes Float.exactlyRepresentablePowersOfTen[k] (10 ^ k) := by
  unfold Denotes
  decide +kernel

private theorem unpackedRounded_ofScientific (m : ℕ) {e : ℤ} (hlow : -2048 ≤ e)
    (hhigh : e ≤ 2048) :
    UnpackedRounded (UnpackedFloat.ofScientific Format.binary64 m e) (m * 10 ^ e) := by
  have hbits : (2 : ℤ) ^ Format.binary64.exponentBits = 2048 := rfl
  rw [UnpackedFloat.ofScientific, hbits]
  split_ifs with hm hhuge htiny hpos
  · rw [hm, Nat.cast_zero, zero_mul]
    exact unpackedRounded_zero .positive
  · omega
  · omega
  · -- The significand is lengthened so that the product has all places of the grid.
    have hm' : 0 < m := Nat.pos_of_ne_zero hm
    obtain ⟨k, rfl⟩ := Int.eq_ofNat_of_zero_le hpos
    have hproduct : 0 < (m <<< 53) * 10 ^ k := by
      rw [Nat.shiftLeft_eq]
      positivity
    have hvalue : (((m <<< 53) * 10 ^ k : ℕ) : ℚ) * 2 ^ (-53 + 0 : ℤ) = m * 10 ^ (k : ℤ) := by
      rw [Nat.shiftLeft_eq, zpow_natCast]
      push_cast
      norm_num
      ring
    have hone : (1 : ℚ) ≤ m * 10 ^ (k : ℤ) := by
      rw [zpow_natCast]
      exact_mod_cast Nat.one_le_iff_ne_zero.mpr (Nat.mul_pos hm' (by positivity)).ne'
    have hfine :
        (-53 + 0 : ℤ) ≤ lastPlace ((((m <<< 53) * 10 ^ k : ℕ) : ℚ) * 2 ^ (-53 + 0 : ℤ)) := by
      rw [hvalue]
      refine le_lastPlace_of_le_abs (by positivity) ?_
      rw [abs_of_pos (by positivity)]
      refine le_trans ?_ hone
      norm_num
    have hround := unpackedRounded_exact (.positive * .positive) hproduct hfine
    rw [hvalue] at hround
    exact hround
  · have hm' : 0 < m := Nat.pos_of_ne_zero hm
    have hdiv := unpackedRounded_div .positive .positive 0 0 hm'
      (Nat.pow_pos (n := (-e).toNat) (by norm_num : 0 < 10))
    have hvalue : (m : ℚ) * 2 ^ (0 : ℤ) / ((10 ^ (-e).toNat : ℕ) * 2 ^ (0 : ℤ)) = m * 10 ^ e := by
      rw [zpow_zero, mul_one, mul_one, div_eq_mul_inv, Nat.cast_pow, Nat.cast_ofNat,
        ← zpow_natCast, ← zpow_neg]
      congr 2
      omega
    rw [hvalue] at hdiv
    exact hdiv

/-- A decimal is rounded once, whether it is short enough for the table of powers or not. -/
theorem isRounded_ofScientific (m : ℕ) (negative : Bool) {k : ℕ} (hk : k ≤ 2048) :
    IsRounded (Float.ofScientific m negative k)
      (if negative then (m : ℚ) / 10 ^ k else m * 10 ^ k) := by
  rw [Float.ofScientific]
  split_ifs with hshort hneg hneg
  · have hpow := denotes_powerOfTen k (Nat.lt_of_le_of_lt hshort.2 (by decide))
    exact isRounded_div (denotes_toFloat hshort.1) hpow (by positivity)
  · have hpow := denotes_powerOfTen k (Nat.lt_of_le_of_lt hshort.2 (by decide))
    exact isRounded_mul (denotes_toFloat hshort.1) hpow
  · have h := (unpackedRounded_ofScientific m (e := -(k : ℤ)) (by omega) (by omega)).isRounded
    rw [zpow_neg, zpow_natCast, ← div_eq_mul_inv] at h
    change IsRounded (Float.ofModel (Float.Model.ofScientific m (Int.negOfNat k))) _
    rw [Int.negOfNat_eq]
    exact h
  · have h := (unpackedRounded_ofScientific m (e := (k : ℤ)) (by omega) (by omega)).isRounded
    rw [zpow_natCast] at h
    exact h

theorem isRounded_ofNat (n : ℕ) : IsRounded (Float.ofNat n) n := by
  have h := isRounded_ofScientific n false (k := 0) (by norm_num)
  rw [if_neg Bool.false_ne_true, pow_zero, mul_one] at h
  exact h

theorem isRounded_ofInt (n : ℤ) : IsRounded (Float.ofInt n) n := by
  match n with
  | .ofNat n => exact isRounded_ofNat n
  | .negSucc n =>
    have h := (isRounded_ofNat (n + 1)).neg
    rw [Int.cast_negSucc]
    exact h

theorem denotes_of_wholeFloat? {n : ℤ} (h : wholeFloat? n = .ok x) :
    Denotes x (nearestBinary n) := by
  rw [wholeFloat?] at h
  split_ifs at h with hfinite
  cases h
  obtain ⟨q, hq⟩ := isFinite_iff_denotes.mp hfinite
  rwa [(isRounded_ofInt n).eq_nearestBinary hq] at hq

theorem denotes_ofNat {n : ℕ} (h : n ≤ 2 ^ 53) : Denotes (Float.ofNat n) n :=
  (isRounded_ofNat n).denotes_natCast h

theorem denotes_zero : Denotes 0 0 := denotes_ofNat (Nat.zero_le _)

/-! ## Infinite and undefined floats -/

/-- The float `x` is finite or infinite. -/
def IsDefined (x : Float) : Prop := Exact.ofFloat x ≠ .undefined

theorem Denotes.isDefined (hx : Denotes x a) : IsDefined x := by
  obtain ⟨negative, m, e, h, -⟩ := hx.exists_finite
  rw [IsDefined, h]
  rintro ⟨⟩

theorem isDefined_of_infinite {negative : Bool} (hx : Exact.ofFloat x = .infinite negative) :
    IsDefined x := by
  rw [IsDefined, hx]
  rintro ⟨⟩

theorem IsRounded.isDefined (hx : IsRounded x a) : IsDefined x := by
  rcases hx with ⟨-, hvalue⟩ | ⟨-, hinfinite⟩
  · exact hvalue.isDefined
  · exact isDefined_of_infinite hinfinite

theorem exists_unpack_of_infinite {negative : Bool}
    (h : Exact.ofFloat x = .infinite negative) :
    ∃ s, x.toModel.unpack = .infinity s ∧ (s == .negative) = negative := by
  rw [ofFloat_eq_exactOf] at h
  match hx : x.toModel.unpack with
  | .infinity s =>
    rw [hx] at h
    cases h
    exact ⟨s, rfl, rfl⟩
  | .notANumber | .zero _ | .finite .. =>
    rw [hx] at h
    cases h

private theorem unpack_of_not_isDefined (h : ¬ IsDefined x) : x.toModel.unpack = .notANumber := by
  rw [IsDefined, not_not, ofFloat_eq_exactOf] at h
  match hx : x.toModel.unpack with
  | .notANumber => rfl
  | .infinity _ | .zero _ | .finite .. =>
    rw [hx] at h
    cases h

private theorem ofFloat_pack_infinity (s : Sign) :
    Exact.ofFloat (Float.ofModel (Float.Model.pack (.infinity s))) = .infinite (s == .negative) :=
  (ofFloat_eq_exactOf _).trans (congrArg exactOf (stored_infinity s))

private theorem ofFloat_pack_notANumber :
    Exact.ofFloat (Float.ofModel (Float.Model.pack .notANumber)) = .undefined :=
  (ofFloat_eq_exactOf _).trans (congrArg exactOf stored_notANumber)

/-- An infinite float stays what it is when something finite is added. -/
theorem infinite_add {negative : Bool} (hx : Exact.ofFloat x = .infinite negative)
    (hy : Denotes y b) : Exact.ofFloat (x + y) = .infinite negative := by
  change Exact.ofFloat (Float.ofModel (Float.Model.pack
    (UnpackedFloat.add Format.binary64 x.toModel.unpack y.toModel.unpack))) = _
  obtain ⟨s, hs, rfl⟩ := exists_unpack_of_infinite hx
  rcases hy.parts with ⟨-, t, ht⟩ | ⟨t, n, f, hn, -, -, -, ht⟩ <;> rw [hs, ht]
  · exact ofFloat_pack_infinity s
  · exact ofFloat_pack_infinity s

theorem isDefined_add_iff (hy : Denotes y b) : IsDefined (x + y) ↔ IsDefined x := by
  by_cases hx : IsDefined x
  · refine iff_of_true ?_ hx
    match h : Exact.ofFloat x with
    | .finite .. =>
      obtain ⟨a, ha⟩ := isFinite_iff_denotes.mp (by rw [h]; rfl)
      exact (isRounded_add ha hy).isDefined
    | .infinite negative => exact isDefined_of_infinite (infinite_add h hy)
    | .undefined => exact absurd h hx
  · refine iff_of_false (fun h ↦ h ?_) hx
    change Exact.ofFloat (Float.ofModel (Float.Model.pack
      (UnpackedFloat.add Format.binary64 x.toModel.unpack y.toModel.unpack))) = _
    rw [unpack_of_not_isDefined hx]
    exact ofFloat_pack_notANumber

theorem float_add_comm (x y : Float) : x + y = y + x := by
  have hcomm (u v : UnpackedFloat) :
      UnpackedFloat.add Format.binary64 u v = UnpackedFloat.add Format.binary64 v u := by
    match u, v with
    | .notANumber, .notANumber | .notANumber, .infinity _ | .notANumber, .zero _
    | .notANumber, .finite .. | .infinity _, .notANumber | .infinity _, .zero _
    | .infinity _, .finite .. | .zero _, .notANumber | .zero _, .infinity _
    | .zero _, .finite .. | .finite .., .notANumber | .finite .., .infinity _
    | .finite .., .zero _ => rfl
    | .infinity s, .infinity t => cases s <;> cases t <;> rfl
    | .zero s, .zero t => cases s <;> cases t <;> rfl
    | .finite s m e _, .finite t n f _ =>
      rw [UnpackedFloat.add, UnpackedFloat.add, min_comm e f]
      dsimp only
      rw [add_comm]
  exact congrArg (fun u ↦ Float.ofModel (Float.Model.pack u)) (hcomm _ _)

theorem isDefined_neg_iff : IsDefined (-x) ↔ IsDefined x := by
  rw [IsDefined, IsDefined, ofFloat_neg]
  cases Exact.ofFloat x <;> simp [Exact.neg]

theorem isDefined_sub_iff (hx : Denotes x a) : IsDefined (x - y) ↔ IsDefined y := by
  rw [float_sub_eq_add_neg, float_add_comm, isDefined_add_iff hx, isDefined_neg_iff]

theorem float_mul_comm (x y : Float) : x * y = y * x := by
  have hcomm (u v : UnpackedFloat) :
      UnpackedFloat.mul Format.binary64 u v = UnpackedFloat.mul Format.binary64 v u := by
    match u, v with
    | .notANumber, .notANumber | .notANumber, .infinity _ | .notANumber, .zero _
    | .notANumber, .finite .. | .infinity _, .notANumber | .infinity _, .zero _
    | .zero _, .notANumber | .zero _, .infinity _ | .finite .., .notANumber => rfl
    | .infinity s, .infinity t => cases s <;> cases t <;> rfl
    | .infinity s, .finite t .. => cases s <;> cases t <;> rfl
    | .finite s .., .infinity t => cases s <;> cases t <;> rfl
    | .finite s .., .zero t => cases s <;> cases t <;> rfl
    | .zero s, .finite t .. => cases s <;> cases t <;> rfl
    | .zero s, .zero t => cases s <;> cases t <;> rfl
    | .finite s m e _, .finite t n f _ =>
      have hsign : s * t = t * s := by cases s <;> cases t <;> rfl
      rw [UnpackedFloat.mul, UnpackedFloat.mul, hsign, mul_comm m, add_comm e]
  exact congrArg (fun u ↦ Float.ofModel (Float.Model.pack u)) (hcomm _ _)

theorem not_isDefined_infinite_mul {negative : Bool} (hx : Exact.ofFloat x = .infinite negative)
    (hy : Denotes y 0) : ¬ IsDefined (x * y) := by
  rw [IsDefined, not_not]
  change Exact.ofFloat (Float.ofModel (Float.Model.pack
    (UnpackedFloat.mul Format.binary64 x.toModel.unpack y.toModel.unpack))) = _
  obtain ⟨s, hs, -⟩ := exists_unpack_of_infinite hx
  rcases hy.parts with ⟨-, t, ht⟩ | ⟨t, n, f, hn, -, -, hzero, ht⟩
  · rw [hs, ht]
    exact ofFloat_pack_notANumber
  · have hpos : (0 : ℚ) < n * 2 ^ f := mul_pos (by exact_mod_cast hn) (two_zpow_pos f)
    have habs := abs_signedRat t (n * 2 ^ f)
    rw [← hzero, abs_zero, abs_of_pos hpos] at habs
    exact absurd habs hpos.ne

theorem isDefined_mul_iff (hy : Denotes y b) (hb : b ≠ 0) : IsDefined (x * y) ↔ IsDefined x := by
  obtain ⟨h0, -⟩ | ⟨t, n, f, hn, -, -, -, ht⟩ := hy.parts
  · exact absurd h0 hb
  have hmul : x * y = Float.ofModel (Float.Model.pack
    (UnpackedFloat.mul Format.binary64 x.toModel.unpack (.finite t n f hn))) := by
    rw [← ht]
    rfl
  by_cases hx : IsDefined x
  · refine iff_of_true ?_ hx
    match h : Exact.ofFloat x with
    | .finite .. =>
      obtain ⟨a, ha⟩ := isFinite_iff_denotes.mp (by rw [h]; rfl)
      exact (isRounded_mul ha hy).isDefined
    | .infinite negative =>
      obtain ⟨s, hs, -⟩ := exists_unpack_of_infinite h
      rw [hmul, hs]
      exact isDefined_of_infinite (ofFloat_pack_infinity (s * t))
    | .undefined => exact absurd h hx
  · refine iff_of_false (fun h ↦ h ?_) hx
    rw [hmul, unpack_of_not_isDefined hx]
    exact ofFloat_pack_notANumber

theorem denotes_div_infinite {negative : Bool} (hx : Denotes x a)
    (hy : Exact.ofFloat y = .infinite negative) : Denotes (x / y) 0 := by
  change Denotes (Float.ofModel (Float.Model.pack
    (UnpackedFloat.div Format.binary64 x.toModel.unpack y.toModel.unpack))) 0
  obtain ⟨t, ht, -⟩ := exists_unpack_of_infinite hy
  rcases hx.parts with ⟨-, s, hs⟩ | ⟨s, m, e, hm, -, -, -, hs⟩ <;> rw [hs, ht]
  · exact denotes_of_unpack_zero (stored_zero (s / t))
  · exact denotes_of_unpack_zero (stored_zero (s / t))

end Engraving
