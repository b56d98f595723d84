import Engraving.Number.Quantity
import Engraving.Proofs.Number.FloatArithmetic
import Mathlib.Order.WithBot

/-!
# Order and quotients of floats

How floats compare with each other, and when the quotient of two is finite and positive.
-/

namespace Engraving

/-! ## The order of floats

Finite floats are compared by their values: canonical parts compare exponent first, and that is the
order of the numbers they stand for. The infinities are the ends of the line: what is defined at
all has a `rank` among the rationals with an end on either side, and is compared by it.
-/

section

open Float.Model (Format UnpackedFloat)
open Float.Model.UnpackedFloat

variable {x y : Float} {a b : ℚ}

theorem float_lt_iff : x < y ↔ UnpackedFloat.lt x.toModel.unpack y.toModel.unpack = true := by
  change Float.lt x y = true ↔ _
  rw [Float.lt, decide_eq_true_iff]
  exact Iff.rfl

theorem float_le_iff : x ≤ y ↔ UnpackedFloat.le x.toModel.unpack y.toModel.unpack = true := by
  change Float.le x y = true ↔ _
  rw [Float.le, decide_eq_true_iff]
  exact Iff.rfl

section compare

/-! What the comparison of two floats comes to, in terms of numbers that compare as they do. -/

variable {α : Type} [LinearOrder α] {v w : α}

theorem lt_iff_of_compare
    (h : UnpackedFloat.compare x.toModel.unpack y.toModel.unpack = some (compare v w)) :
    x < y ↔ v < w := by
  rw [float_lt_iff, UnpackedFloat.lt, h, beq_iff_eq, Option.some_inj, compare_lt_iff_lt]

theorem le_iff_of_compare
    (h : UnpackedFloat.compare x.toModel.unpack y.toModel.unpack = some (compare v w)) :
    x ≤ y ↔ v ≤ w := by
  rw [float_le_iff, UnpackedFloat.le, h, Option.any_some]
  exact Ordering.isLE_iff_ne_gt.trans compare_le_iff_le

theorem beq_iff_of_compare
    (h : UnpackedFloat.compare x.toModel.unpack y.toModel.unpack = some (compare v w)) :
    (x == y) = true ↔ v = w := by
  change (UnpackedFloat.compare x.toModel.unpack y.toModel.unpack == some .eq) = true ↔ _
  rw [h, beq_iff_eq, Option.some_inj, compare_eq_iff_eq]

end compare

/-! ### Canonical parts -/

/-- Of two canonical magnitudes the one with the lesser exponent is the lesser: it lies below the
normal numbers of the next exponent. -/
theorem IsCanonical.mul_lt_of_exponent_lt {m n : ℕ} {e f : ℤ} (hm : IsCanonical m e)
    (hn : IsCanonical n f) (h : e < f) : (m : ℚ) * 2 ^ e < n * 2 ^ f := by
  have hleast := hm.least_le
  have hnormal : 2 ^ 52 ≤ n := hn.normal_or_least.resolve_right (by omega)
  calc (m : ℚ) * 2 ^ e < 2 ^ (e + 53) := hm.abs_lt
    _ ≤ 2 ^ (52 + f) := zpow_le_zpow_right₀ one_le_two (by omega)
    _ = 2 ^ 52 * 2 ^ f := by
      rw [zpow_add₀ two_ne_zero]
      rfl
    _ ≤ n * 2 ^ f := mul_le_mul_of_nonneg_right (by exact_mod_cast hnormal) (two_zpow_pos f).le

theorem IsCanonical.compare_eq {m n : ℕ} {e f : ℤ} (hm : IsCanonical m e)
    (hn : IsCanonical n f) :
    (compare e f).then (compare m n) = compare ((m : ℚ) * 2 ^ e) (n * 2 ^ f) := by
  rcases lt_trichotomy e f with hlt | rfl | hgt
  · rw [compare_lt_iff_lt.mpr hlt, compare_lt_iff_lt.mpr (hm.mul_lt_of_exponent_lt hn hlt)]
    rfl
  · have hpos := two_zpow_pos e
    rw [compare_eq_iff_eq.mpr rfl]
    change compare m n = _
    rcases lt_trichotomy m n with hlt | rfl | hgt
    · rw [compare_lt_iff_lt.mpr hlt, eq_comm, compare_lt_iff_lt]
      exact mul_lt_mul_of_pos_right (by exact_mod_cast hlt) hpos
    · rw [compare_eq_iff_eq.mpr rfl, compare_eq_iff_eq.mpr rfl]
    · rw [compare_gt_iff_gt.mpr hgt, eq_comm, compare_gt_iff_gt]
      exact mul_lt_mul_of_pos_right (by exact_mod_cast hgt) hpos
  · rw [compare_gt_iff_gt.mpr hgt, compare_gt_iff_gt.mpr (hn.mul_lt_of_exponent_lt hm hgt)]
    rfl

/-! ### Finite floats -/

private theorem compare_neg (p q : ℚ) : compare (-p) (-q) = (compare p q).swap := by
  rcases lt_trichotomy p q with hlt | rfl | hgt
  · rw [compare_lt_iff_lt.mpr hlt, compare_gt_iff_gt.mpr (neg_lt_neg hlt)]
    rfl
  · rw [compare_eq_iff_eq.mpr rfl, compare_eq_iff_eq.mpr rfl]
    rfl
  · rw [compare_gt_iff_gt.mpr hgt, compare_lt_iff_lt.mpr (neg_lt_neg hgt)]
    rfl

theorem Denotes.compare_eq (hx : Denotes x a) (hy : Denotes y b) :
    UnpackedFloat.compare x.toModel.unpack y.toModel.unpack = some (compare a b) := by
  have hpos {m : ℕ} (hm : 0 < m) (e : ℤ) : (0 : ℚ) < m * 2 ^ e :=
    mul_pos (by exact_mod_cast hm) (two_zpow_pos e)
  have hless {p q : ℚ} (h : p < q) : some (compare p q) = some Ordering.lt :=
    congrArg some (compare_lt_iff_lt.mpr h)
  have hmore {p q : ℚ} (h : q < p) : some (compare p q) = some Ordering.gt :=
    congrArg some (compare_gt_iff_gt.mpr h)
  rcases hx.parts with ⟨rfl, s, hs⟩ | ⟨s, m, e, hm, hcanonical, -, rfl, hs⟩
  · rcases hy.parts with ⟨rfl, t, ht⟩ | ⟨t, n, f, hn, -, -, rfl, ht⟩ <;> rw [hs, ht]
    · rw [compare_eq_iff_eq.mpr rfl]
      rfl
    · cases t
      · exact (hmore (neg_lt_zero.mpr (hpos hn f))).symm
      · exact (hless (hpos hn f)).symm
  · rcases hy.parts with ⟨rfl, t, ht⟩ | ⟨t, n, f, hn, hcanonical', -, rfl, ht⟩ <;> rw [hs, ht]
    · cases s
      · exact (hless (neg_lt_zero.mpr (hpos hm e))).symm
      · exact (hmore (hpos hm e)).symm
    · have hparts := hcanonical.compare_eq hcanonical'
      cases s <;> cases t
      · rw [signedRat, signedRat, compare_neg, ← hparts]
        rfl
      · exact (hless ((neg_lt_zero.mpr (hpos hm e)).trans (hpos hn f))).symm
      · exact (hmore ((neg_lt_zero.mpr (hpos hn f)).trans (hpos hm e))).symm
      · rw [signedRat, signedRat, ← hparts]
        rfl

theorem Denotes.lt_iff (hx : Denotes x a) (hy : Denotes y b) : x < y ↔ a < b :=
  lt_iff_of_compare (hx.compare_eq hy)

theorem Denotes.le_iff (hx : Denotes x a) (hy : Denotes y b) : x ≤ y ↔ a ≤ b :=
  le_iff_of_compare (hx.compare_eq hy)

/-- A finite float is compared with zero by its value. -/
theorem Denotes.le_zero_iff (hx : Denotes x a) : x ≤ 0 ↔ a ≤ 0 :=
  hx.le_iff denotes_zero

/-! ### Floats that may be infinite -/

/-- Where a float that is defined lies on the line of the rationals with its two ends. -/
def rank (x : Float) : WithBot (WithTop ℚ) :=
  match Exact.ofFloat x with
  | .infinite true => ⊥
  | .infinite false | .undefined => ⊤
  | .finite negative m e => (((Exact.finite negative m e).toRat?.getD 0 : ℚ) : WithTop ℚ)

theorem Denotes.rank_eq (hx : Denotes x a) : rank x = ((a : WithTop ℚ) : WithBot (WithTop ℚ)) := by
  obtain ⟨negative, m, e, h, -⟩ := hx.exists_finite
  rw [Denotes, h] at hx
  rw [rank, h]
  dsimp only
  rw [hx, Option.getD_some]

theorem rank_infinite (hx : Exact.ofFloat x = .infinite false) : rank x = ⊤ := by rw [rank, hx]

theorem IsDefined.cases (h : IsDefined x) :
    (∃ a, Denotes x a) ∨ (x.toModel.unpack = .infinity .negative ∧ rank x = ⊥) ∨
      (x.toModel.unpack = .infinity .positive ∧ rank x = ⊤) := by
  match hx : Exact.ofFloat x with
  | .finite .. => exact Or.inl (isFinite_iff_denotes.mp (by rw [hx]; rfl))
  | .infinite negative =>
    obtain ⟨s, hs, rfl⟩ := exists_unpack_of_infinite hx
    rw [rank, hx]
    cases s
    · exact Or.inr (Or.inl ⟨hs, rfl⟩)
    · exact Or.inr (Or.inr ⟨hs, rfl⟩)
  | .undefined => exact absurd hx h

private theorem compare_coe_coe (p q : ℚ) :
    compare ((p : WithTop ℚ) : WithBot (WithTop ℚ)) ((q : WithTop ℚ) : WithBot (WithTop ℚ))
      = compare p q := by
  rcases lt_trichotomy p q with h | rfl | h
  · rw [compare_lt_iff_lt.mpr h, compare_lt_iff_lt]
    exact WithBot.coe_lt_coe.mpr (WithTop.coe_lt_coe.mpr h)
  · rw [compare_eq_iff_eq.mpr rfl, compare_eq_iff_eq.mpr rfl]
  · rw [compare_gt_iff_gt.mpr h, compare_gt_iff_gt]
    exact WithBot.coe_lt_coe.mpr (WithTop.coe_lt_coe.mpr h)

private theorem Denotes.compare_infinity (hx : Denotes x a) :
    (UnpackedFloat.compare x.toModel.unpack (.infinity .negative) = some .gt ∧
      UnpackedFloat.compare x.toModel.unpack (.infinity .positive) = some .lt) ∧
    UnpackedFloat.compare (.infinity .negative) x.toModel.unpack = some .lt ∧
      UnpackedFloat.compare (.infinity .positive) x.toModel.unpack = some .gt := by
  rcases hx.parts with ⟨-, s, hs⟩ | ⟨s, m, e, hm, -, -, -, hs⟩ <;> rw [hs] <;> cases s <;>
    exact ⟨⟨rfl, rfl⟩, rfl, rfl⟩

theorem IsDefined.compare_eq (hx : IsDefined x) (hy : IsDefined y) :
    UnpackedFloat.compare x.toModel.unpack y.toModel.unpack
      = some (compare (rank x) (rank y)) := by
  have hless {v w : WithBot (WithTop ℚ)} (h : v < w) : some Ordering.lt = some (compare v w) :=
    congrArg some (compare_lt_iff_lt.mpr h).symm
  have hmore {v w : WithBot (WithTop ℚ)} (h : w < v) : some Ordering.gt = some (compare v w) :=
    congrArg some (compare_gt_iff_gt.mpr h).symm
  have hsame (v : WithBot (WithTop ℚ)) : some Ordering.eq = some (compare v v) :=
    congrArg some (compare_eq_iff_eq.mpr rfl).symm
  have htop (q : ℚ) : ((q : WithTop ℚ) : WithBot (WithTop ℚ)) < ⊤ :=
    WithBot.coe_lt_coe.mpr (WithTop.coe_lt_top q)
  rcases hx.cases with ⟨a, ha⟩ | ⟨hx, hrank⟩ | ⟨hx, hrank⟩
  · obtain ⟨⟨hleast, hgreatest⟩, -⟩ := ha.compare_infinity
    rcases hy.cases with ⟨b, hb⟩ | ⟨hy, hrank'⟩ | ⟨hy, hrank'⟩
    · rw [ha.compare_eq hb, ha.rank_eq, hb.rank_eq, compare_coe_coe]
    · rw [hy, hleast, ha.rank_eq, hrank']
      exact hmore (WithBot.bot_lt_coe _)
    · rw [hy, hgreatest, ha.rank_eq, hrank']
      exact hless (htop a)
  · rw [hx, hrank]
    rcases hy.cases with ⟨b, hb⟩ | ⟨hy, hrank'⟩ | ⟨hy, hrank'⟩
    · rw [hb.compare_infinity.2.1, hb.rank_eq]
      exact hless (WithBot.bot_lt_coe _)
    · rw [hy, hrank']
      exact hsame ⊥
    · rw [hy, hrank']
      exact hless bot_lt_top
  · rw [hx, hrank]
    rcases hy.cases with ⟨b, hb⟩ | ⟨hy, hrank'⟩ | ⟨hy, hrank'⟩
    · rw [hb.compare_infinity.2.2, hb.rank_eq]
      exact hmore (htop b)
    · rw [hy, hrank']
      exact hmore bot_lt_top
    · rw [hy, hrank']
      exact hsame ⊤

theorem IsDefined.lt_iff (hx : IsDefined x) (hy : IsDefined y) : x < y ↔ rank x < rank y :=
  lt_iff_of_compare (hx.compare_eq hy)

theorem IsDefined.le_iff (hx : IsDefined x) (hy : IsDefined y) : x ≤ y ↔ rank x ≤ rank y :=
  le_iff_of_compare (hx.compare_eq hy)

theorem IsDefined.beq_iff (hx : IsDefined x) (hy : IsDefined y) :
    (x == y) = true ↔ rank x = rank y :=
  beq_iff_of_compare (hx.compare_eq hy)

theorem Denotes.lt_infinite (hx : Denotes x a) (hy : Exact.ofFloat y = .infinite false) :
    x < y ∧ ¬ y < x := by
  have hy' := isDefined_of_infinite hy
  rw [hx.isDefined.lt_iff hy', hy'.lt_iff hx.isDefined, rank_infinite hy, hx.rank_eq]
  exact ⟨WithBot.coe_lt_coe.mpr (WithTop.coe_lt_top a), not_top_lt⟩

/-! ### The lesser and the greater -/

theorem Denotes.lesser (hx : Denotes x a) (hy : Denotes y b) :
    Denotes (Scalar.lesser x y) (Scalar.lesser a b) := by
  rw [Scalar.lesser, Scalar.lesser]
  by_cases h : b < a
  · rw [if_pos ((hy.lt_iff hx).mpr h), if_pos h]
    exact hy
  · rw [if_neg (mt (hy.lt_iff hx).mp h), if_neg h]
    exact hx

theorem Denotes.greater (hx : Denotes x a) (hy : Denotes y b) :
    Denotes (Scalar.greater x y) (Scalar.greater a b) := by
  rw [Scalar.greater, Scalar.greater]
  by_cases h : a < b
  · rw [if_pos ((hx.lt_iff hy).mpr h), if_pos h]
    exact hy
  · rw [if_neg (mt (hx.lt_iff hy).mp h), if_neg h]
    exact hx

theorem IsDefined.lesser (hx : IsDefined x) (hy : IsDefined y) :
    IsDefined (Scalar.lesser x y) := by
  rw [Scalar.lesser]
  split
  · exact hy
  · exact hx

theorem IsDefined.greater (hx : IsDefined x) (hy : IsDefined y) :
    IsDefined (Scalar.greater x y) := by
  rw [Scalar.greater]
  split
  · exact hy
  · exact hx

theorem IsDefined.rank_lesser (hx : IsDefined x) (hy : IsDefined y) :
    rank (Scalar.lesser x y) = min (rank x) (rank y) := by
  rw [Scalar.lesser, min_def_lt']
  by_cases h : y < x
  · rw [if_pos h, if_pos ((hy.lt_iff hx).mp h)]
  · rw [if_neg h, if_neg (mt (hy.lt_iff hx).mpr h)]

theorem IsDefined.rank_greater (hx : IsDefined x) (hy : IsDefined y) :
    rank (Scalar.greater x y) = max (rank x) (rank y) := by
  rw [Scalar.greater, max_def_lt]
  by_cases h : x < y
  · rw [if_pos h, if_pos ((hx.lt_iff hy).mp h)]
  · rw [if_neg h, if_neg (mt (hx.lt_iff hy).mpr h)]

end

/-! ## Quotients of floats

A finite float that is divided by a float of one or more is finite again, and it stays positive
unless the quotient is so small that it is rounded to zero. Nothing else gives a finite quotient.
-/

section

open Float.Model

variable {x y : Float} {a b q : ℚ}

/-! ### Numbers that are rounded to zero -/

/-- The halfway point between zero and the least float. -/
theorem two_zpow_neg_1075 : (2 : ℚ) ^ (-1075 : ℤ) = 2 ^ (-1074 : ℤ) / 2 := by
  rw [div_eq_mul_inv, ← zpow_sub_one₀ two_ne_zero]
  rfl

theorem nearestBinary_eq_zero (hpos : 0 < q) (hsmall : q ≤ 2 ^ (-1075 : ℤ)) :
    nearestBinary q = 0 := by
  have hplace : lastPlace q = -1074 := by
    refine (lastPlace_le_of_abs_lt le_rfl hpos.ne' ?_).antisymm (neg_1074_le_lastPlace q)
    rw [abs_of_pos hpos]
    exact hsmall.trans_lt (zpow_lt_zpow_right₀ one_lt_two (by norm_num))
  have hscaled : q / 2 ^ (-1074 : ℤ) ≤ 1 / 2 := by
    rw [div_le_iff₀ (two_zpow_pos _), one_div, inv_mul_eq_div, ← two_zpow_neg_1075]
    exact hsmall
  have hzero : nearestEven (q / 2 ^ (-1074 : ℤ)) = 0 := by
    refine nearestEven_eq ?_
    rw [IsNearestEven, Int.cast_zero, sub_zero, abs_of_pos (div_pos hpos (two_zpow_pos _))]
    exact hscaled.lt_or_eq.imp_right fun h ↦ ⟨h, Even.zero⟩
  rw [nearestBinary, hplace, hzero, Int.cast_zero, zero_mul]

theorem nearestBinary_pos (h : 2 ^ (-1075 : ℤ) < q) : 0 < nearestBinary q := by
  have hpos : 0 < q := (two_zpow_pos _).trans h
  refine (nearestBinary_nonneg hpos.le).lt_of_ne' fun hzero ↦ ?_
  have hnear := abs_nearestBinary_sub_le_half_place q
  rw [hzero, zero_sub, abs_neg, abs_of_pos hpos] at hnear
  -- Half of the spacing around a number is more than the number only at the least spacing.
  rcases max_cases (Int.log 2 |q| - 52) (-1074) with ⟨hplace, -⟩ | ⟨hplace, -⟩
  · have hlog : (2 : ℚ) ^ Int.log 2 |q| ≤ q := by
      rw [← abs_of_pos hpos, abs_abs]
      exact Int.zpow_log_le_self (by norm_num) (abs_pos.mpr hpos.ne')
    have hspacing : (2 : ℚ) ^ (Int.log 2 |q| - 52) ≤ 2 ^ Int.log 2 |q| :=
      zpow_le_zpow_right₀ one_le_two (by omega)
    rw [lastPlace, hplace] at hnear
    linarith
  · rw [lastPlace, hplace, ← two_zpow_neg_1075] at hnear
    exact absurd h hnear.not_gt

/-- What is half of the least float or less is rounded to zero, and nothing else that is positive
is. -/
theorem nearestBinary_pos_iff : 0 < nearestBinary q ↔ 2 ^ (-1075 : ℤ) < q := by
  refine ⟨fun h ↦ ?_, nearestBinary_pos⟩
  by_contra hsmall
  by_cases hpos : 0 < q
  · exact h.ne' (nearestBinary_eq_zero hpos (not_lt.mp hsmall))
  · have hneg := nearestBinary_nonneg (neg_nonneg.mpr (not_lt.mp hpos))
    rw [nearestBinary_neg, neg_nonneg] at hneg
    exact h.not_ge hneg

/-! ### Integers -/

theorem exists_wholeFloat?_iff {n : ℤ} :
    (∃ x, wholeFloat? n = .ok x) ↔ |(n : ℚ)| < 2 ^ 1024 - 2 ^ 970 := by
  rw [← not_le, ← two_pow_le_abs_nearestBinary_iff, not_le]
  constructor
  · rintro ⟨x, hx⟩
    exact (denotes_of_wholeFloat? hx).abs_lt
  · intro h
    have hvalue := (isRounded_ofInt n).denotes h
    exact ⟨_, if_pos (isFinite_iff_denotes.mpr ⟨_, hvalue⟩)⟩

theorem one_le_nearestBinary {n : ℤ} (h : 0 < n) : 1 ≤ nearestBinary n := by
  have hone : nearestBinary 1 = 1 :=
    nearestBinary_eq_self (n := 1) (e := 0) (by norm_num) (by norm_num) (by norm_num)
  rw [← hone]
  exact nearestBinary_mono zero_le_one (by exact_mod_cast h)

/-! ### Quotients -/

theorem exists_denotes_of_div (hy : Denotes y b) (hb : b ≠ 0) (h : Denotes (x / y) q) :
    ∃ a, Denotes x a := by
  rcases hy.parts with ⟨h0, -⟩ | ⟨t, n, f, hn, -, -, -, ht⟩
  · exact absurd h0 hb
  have hdiv : x / y = Float.ofModel (Float.Model.pack
      (UnpackedFloat.div Format.binary64 x.toModel.unpack (.finite t n f hn))) := by
    rw [← ht]
    rfl
  rw [← isFinite_iff_denotes, ofFloat_eq_exactOf]
  rw [hdiv, Denotes, ofFloat_eq_exactOf] at h
  cases hx : x.toModel.unpack
  case infinity s =>
    rw [hx] at h
    have hstored := congrArg (fun u ↦ (exactOf u).toRat?) (stored_infinity (s / t))
    cases hstored.symm.trans h
  case notANumber =>
    rw [hx] at h
    have hstored := congrArg (fun u ↦ (exactOf u).toRat?) stored_notANumber
    cases hstored.symm.trans h
  all_goals rfl

theorem denotes_div (hx : Denotes x a) (hy : Denotes y b) (hb : 1 ≤ b) :
    Denotes (x / y) (nearestBinary (a / b)) := by
  have hpos : 0 < b := zero_lt_one.trans_le hb
  refine (isRounded_div hx hy hpos.ne').denotes ?_
  have hle : |a / b| ≤ |a| := by
    rw [abs_div, abs_of_pos hpos]
    exact div_le_self (abs_nonneg a) hb
  refine (abs_nearestBinary_mono hle).trans_lt ?_
  rw [hx.nearestBinary_eq]
  exact hx.abs_lt

theorem exists_denotes_div_pos_iff (hy : Denotes y b) (hb : 1 ≤ b) :
    (∃ q, Denotes (x / y) q ∧ 0 < q) ↔ ∃ a, Denotes x a ∧ 2 ^ (-1075 : ℤ) < a / b := by
  have hne : b ≠ 0 := (zero_lt_one.trans_le hb).ne'
  constructor
  · rintro ⟨q, hq, hpos⟩
    obtain ⟨a, ha⟩ := exists_denotes_of_div hy hne hq
    rw [(isRounded_div ha hy hne).eq_nearestBinary hq, nearestBinary_pos_iff] at hpos
    exact ⟨a, ha, hpos⟩
  · rintro ⟨a, ha, hlarge⟩
    exact ⟨_, denotes_div ha hy hb, nearestBinary_pos_iff.mpr hlarge⟩

end

end Engraving
