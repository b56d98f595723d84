import Engraving.Number.Quantity
import Engraving.Proofs.Except
import Engraving.Proofs.Number.FloatOrder

/-!
# Printed numbers

A number is printed as the decimal nearest to it, or as an integer that is not too long to be
written.
-/

namespace Engraving

/-! ## The values of printed decimals

What is printed of a finite number is the decimal nearest to it, so the value of what is printed is
a function of the value alone: neither the form in which the number was given nor the way it was
computed matters. An infinite number or none at all is never printed as a decimal.
-/

/-- The multiple of `10⁻ᵖ` that is nearest to `q`, for `p` places. -/
def nearestDecimal (places : ℕ) (q : ℚ) : ℚ := nearestEven (q * 10 ^ places) / 10 ^ places

section nearestDecimal

variable (places : ℕ) {p q : ℚ}

theorem nearestDecimal_neg (q : ℚ) : nearestDecimal places (-q) = -nearestDecimal places q := by
  rw [nearestDecimal, nearestDecimal, neg_mul, nearestEven_neg, Int.cast_neg, neg_div]

theorem nearestDecimal_mono (h : p ≤ q) : nearestDecimal places p ≤ nearestDecimal places q := by
  have hpos : (0 : ℚ) ≤ 10 ^ places := by positivity
  refine div_le_div_of_nonneg_right ?_ hpos
  exact_mod_cast nearestEven_mono (mul_le_mul_of_nonneg_right h hpos)

theorem abs_nearestDecimal_sub_le (q : ℚ) :
    |nearestDecimal places q - q| ≤ 1 / 2 / 10 ^ places := by
  have hpos : (0 : ℚ) < 10 ^ places := by positivity
  have hscaled : nearestDecimal places q - q
      = -((q * 10 ^ places - nearestEven (q * 10 ^ places)) / 10 ^ places) := by
    rw [nearestDecimal, sub_div, mul_div_cancel_right₀ _ hpos.ne']
    ring
  rw [hscaled, abs_neg, abs_div, abs_of_pos hpos]
  exact div_le_div_of_nonneg_right (abs_sub_nearestEven_le _) hpos.le

end nearestDecimal

/-! ### Decimals -/

namespace FixedPoint

variable {places : ℕ}

theorem value?_finite (negative : Bool) (units : ℕ) :
    (finite negative units : FixedPoint places).value?
      = some (if negative then -((units : ℚ) / 10 ^ places) else units / 10 ^ places) := by
  rw [value?, Rat.mkRat_eq_div]
  push_cast [Nat.pow_eq]
  rfl

/-- The digits of decimals with one sign are told by the value. -/
theorem finite_eq_of_value?_eq {negative : Bool} {m n : ℕ}
    (h : (finite negative m : FixedPoint places).value?
      = (finite negative n : FixedPoint places).value?) : m = n := by
  have hne : (10 : ℚ) ^ places ≠ 0 := by positivity
  have heq : (m : ℚ) / 10 ^ places = n / 10 ^ places := by
    rw [value?_finite, value?_finite, Option.some.injEq] at h
    cases negative
    · exact h
    · exact neg_inj.mp h
  exact_mod_cast (div_left_inj' hne).mp heq

theorem isFinite_iff_value? {d : FixedPoint places} :
    d.isFinite = true ↔ ∃ v, d.value? = some v := by
  cases d with
  | finite negative units => exact ⟨fun _ ↦ ⟨_, rfl⟩, fun _ ↦ rfl⟩
  | infinite negative => exact ⟨fun h ↦ (nomatch h), fun ⟨_, h⟩ ↦ (nomatch h)⟩
  | undefined => exact ⟨fun h ↦ (nomatch h), fun ⟨_, h⟩ ↦ (nomatch h)⟩

theorem value?_ofFloat {x : Float} {q : ℚ} (hx : Denotes x q) :
    (ofFloat places x).value? = some (nearestDecimal places q) := by
  obtain ⟨negative, m, e, h, rfl⟩ := hx.exists_finite
  have hnear : nearestEven ((m : ℚ) * 2 ^ e * 10 ^ places)
      = roundDiv (Exact.numerator m e * Nat.pow 10 places) (Exact.denominator e) := by
    apply nearestEven_eq
    have hround := isNearestEven_roundDiv (Exact.numerator m e * Nat.pow 10 places)
      (Exact.denominator_pos e)
    have hmagnitude := Exact.magnitude_eq m e
    rw [Rat.mkRat_eq_div] at hmagnitude
    rw [← hmagnitude]
    push_cast [Nat.pow_eq] at hround ⊢
    rwa [mul_div_right_comm] at hround
  rw [ofFloat, h, ofExact, ofRatio, value?_finite]
  cases negative
  · rw [if_neg Bool.false_ne_true, if_neg Bool.false_ne_true, nearestDecimal, hnear,
      Int.cast_natCast]
  · rw [if_pos rfl, if_pos rfl, nearestDecimal_neg, nearestDecimal, hnear, Int.cast_natCast]

theorem exists_denotes_of_isFinite {x : Float} (h : (ofFloat places x).isFinite = true) :
    ∃ q, Denotes x q := by
  apply isFinite_iff_denotes.mp
  rw [ofFloat] at h
  match hx : Exact.ofFloat x with
  | .finite .. => rfl
  | .infinite _ =>
    rw [hx] at h
    cases h
  | .undefined =>
    rw [hx] at h
    cases h

end FixedPoint

/-! ### Quantities -/

namespace Quantity

/-- The quantity becomes a finite float when it is printed or measured, and that float denotes
`q`. -/
def Denotes (a : Quantity) (q : ℚ) : Prop := ∃ x, a.toFloat? = .ok x ∧ Engraving.Denotes x q

variable {a : Quantity} {q : ℚ} {places : ℕ}

theorem Denotes.neg (h : a.Denotes q) : a.neg.Denotes (-q) := by
  obtain ⟨x, hx, hq⟩ := h
  cases a with
  | real y =>
    cases hx
    exact ⟨-x, rfl, hq.neg⟩
  | whole n =>
    have hvalue := denotes_of_wholeFloat? hx
    obtain rfl := hq.unique hvalue
    have hround := isRounded_ofInt (-n)
    have hgrid : nearestBinary ((-n : ℤ) : ℚ) = -nearestBinary n := by
      rw [Int.cast_neg, nearestBinary_neg]
    have hsmall : |nearestBinary ((-n : ℤ) : ℚ)| < 2 ^ 1024 := by
      rw [hgrid, abs_neg]
      exact hvalue.abs_lt
    have hneg := hround.denotes hsmall
    refine ⟨Float.ofInt (-n), ?_, hgrid ▸ hneg⟩
    change wholeFloat? (-n) = _
    rw [wholeFloat?, if_pos (isFinite_iff_denotes.mpr ⟨_, hneg⟩)]

theorem Denotes.of_neg (h : a.neg.Denotes q) : a.Denotes (-q) := by
  cases a with
  | real y =>
    obtain ⟨_, ⟨⟩, hq⟩ := h
    exact ⟨y, rfl, hq.of_neg⟩
  | whole n =>
    have htwice := h.neg
    rwa [Quantity.neg, Quantity.neg, neg_neg] at htwice

/-- A quantity that passes for positive has no negative value. -/
theorem Denotes.nonneg (h : a.Denotes q) (hpos : a.isNonpositive = false) : 0 ≤ q := by
  obtain ⟨x, hx, hq⟩ := h
  cases a with
  | real y =>
    cases hx
    have hlt : ¬ q ≤ 0 := fun hle ↦ of_decide_eq_false hpos (hq.le_zero_iff.mpr hle)
    exact (not_le.mp hlt).le
  | whole n =>
    rw [hq.unique (denotes_of_wholeFloat? hx)]
    refine nearestBinary_nonneg ?_
    exact_mod_cast (not_le.mp (of_decide_eq_false hpos)).le

/-- A quantity with a value is printed, as the nearest decimal. -/
theorem Denotes.fixed? (h : a.Denotes q) (places : ℕ) :
    ∃ d, a.fixed? places = .ok d ∧ d.value? = some (nearestDecimal places q) := by
  obtain ⟨x, hx, hq⟩ := h
  refine ⟨FixedPoint.ofFloat places x, ?_, FixedPoint.value?_ofFloat hq⟩
  rw [Quantity.fixed?, hx]
  rfl

theorem exists_denotes_of_fixed? {d : FixedPoint places} (h : a.fixed? places = .ok d)
    (hfinite : d.isFinite = true) : ∃ q, a.Denotes q := by
  rw [Quantity.fixed?] at h
  match hx : a.toFloat? with
  | .error _ =>
    rw [hx] at h
    cases h
  | .ok x =>
    rw [hx] at h
    cases h
    obtain ⟨q, hq⟩ := FixedPoint.exists_denotes_of_isFinite hfinite
    exact ⟨q, x, hx, hq⟩

/-- A printed decimal is the one nearest to what was printed. -/
theorem exists_denotes_of_value? {d : FixedPoint places} (h : a.fixed? places = .ok d) {v : ℚ}
    (hv : d.value? = some v) : ∃ q, a.Denotes q ∧ v = nearestDecimal places q := by
  obtain ⟨q, hq⟩ := exists_denotes_of_fixed? h (FixedPoint.isFinite_iff_value?.mpr ⟨v, hv⟩)
  obtain ⟨d', hd', hvalue⟩ := hq.fixed? places
  cases h.symm.trans hd'
  exact ⟨q, hq, Option.some.inj (hv.symm.trans hvalue)⟩

end Quantity

/-! ## Integers that can be written

An integer is written unless it has thousands of digits. One that becomes a float, or is the nearest
to a float, has a few hundred at most. So of the integers in a program only those that are never
computed with can be too long: the others have been floats before they are written.
-/

section

variable {n : ℤ} {x : Float}

theorem exists_wholeText?_iff :
    (∃ text, wholeText? n = .ok text) ↔ n.natAbs < 10 ^ NumberError.maxDigits := by
  unfold wholeText?
  generalize NumberError.maxDigits = digits
  split_ifs with h
  · exact iff_of_true ⟨_, rfl⟩ h
  · exact iff_of_false (by rintro ⟨_, ⟨⟩⟩) h

/-- Integers in the range of floats, and a good deal beyond it, can be written. -/
theorem exists_wholeText?_of_abs_le (h : |(n : ℚ)| ≤ 2 ^ 1026) :
    ∃ text, wholeText? n = .ok text := by
  rw [exists_wholeText?_iff]
  have hnat : n.natAbs ≤ 2 ^ 1026 := by
    have hcast : ((n.natAbs : ℕ) : ℚ) = |(n : ℚ)| := by rw [Nat.cast_natAbs, Int.cast_abs]
    rw [← hcast] at h
    exact_mod_cast h
  have hbase (k : ℕ) : 2 ^ k ≤ 10 ^ k := Nat.pow_le_pow_left (by decide) k
  have hexponent : 10 ^ 1026 < 10 ^ NumberError.maxDigits :=
    pow_lt_pow_right₀ (by decide) (by decide)
  exact (hnat.trans (hbase 1026)).trans_lt hexponent

theorem exists_wholeText?_of_wholeFloat? (h : wholeFloat? n = .ok x) :
    ∃ text, wholeText? n = .ok text := by
  have hsmall := (denotes_of_wholeFloat? h).abs_lt
  have hnear := abs_nearestBinary_sub_le (n : ℚ)
  have htiny : (2 : ℚ) ^ (-1075 : ℤ) ≤ 1 := zpow_le_one_of_nonpos₀ one_le_two (by norm_num)
  have htriangle : |(n : ℚ)| ≤ |nearestBinary n| + |nearestBinary n - n| := by
    have := abs_sub_abs_le_abs_sub (n : ℚ) (nearestBinary n)
    rw [abs_sub_comm] at this
    linarith
  have hhalf : |(n : ℚ)| * 2 ^ (-53 : ℤ) ≤ |(n : ℚ)| / 2 := by
    have hscale : (2 : ℚ) ^ (-53 : ℤ) ≤ 1 / 2 := by norm_num
    have := mul_le_mul_of_nonneg_left hscale (abs_nonneg (n : ℚ))
    linarith
  refine exists_wholeText?_of_abs_le ?_
  have hone : (1 : ℚ) ≤ 2 ^ 1024 := one_le_pow₀ one_le_two
  rw [show 1026 = 1024 + 2 from rfl, pow_add]
  generalize (2 : ℚ) ^ 1024 = large at hsmall hone ⊢
  generalize (2 : ℚ) ^ (-1075 : ℤ) = tiny at hnear htiny
  generalize |(n : ℚ)| * 2 ^ (-53 : ℤ) = error at hnear hhalf
  linarith

theorem wholeFloat?_natCast {n : ℕ} (h : n ≤ 2 ^ 53) : wholeFloat? n = .ok (Float.ofNat n) := by
  have hof : Float.ofInt (n : ℤ) = Float.ofNat n := rfl
  rw [wholeFloat?, hof, if_pos (isFinite_iff_denotes.mpr ⟨_, denotes_ofNat h⟩)]

theorem wholeText?_eq_error {e : NumberError} (h : wholeText? n = .error e) :
    e = .tooLong := by
  unfold wholeText? at h
  split at h
  · cases h
  · cases h
    rfl

theorem wholeFloat?_eq_error {e : NumberError} (h : wholeFloat? n = .error e) :
    e = .tooLarge := by
  rw [wholeFloat?] at h
  split at h
  · cases h
  · cases h
    rfl

theorem exists_denotes_of_nearest? (h : (Exact.ofFloat x).nearest? = .ok n) :
    ∃ q, Denotes x q ∧ IsNearestEven q n := by
  match hx : Exact.ofFloat x with
  | .infinite _ =>
    rw [hx] at h
    cases h
  | .undefined =>
    rw [hx] at h
    cases h
  | .finite negative m e =>
    rw [hx] at h
    cases h
    have hround := isNearestEven_roundDiv (Exact.numerator m e) (Exact.denominator_pos e)
    have hmagnitude := Exact.magnitude_eq m e
    rw [Rat.mkRat_eq_div, Int.cast_natCast] at hmagnitude
    rw [hmagnitude] at hround
    refine ⟨_, by rw [Denotes, hx, Exact.toRat?_finite], ?_⟩
    cases negative
    · exact hround
    · exact hround.neg

theorem Denotes.nearest?_eq {q : ℚ} (hx : Denotes x q) :
    (Exact.ofFloat x).nearest? = .ok (nearestEven q) := by
  obtain ⟨negative, m, e, hfinite, -⟩ := hx.exists_finite
  have hsome : ∃ n, (Exact.ofFloat x).nearest? = .ok n := ⟨_, by rw [hfinite]; rfl⟩
  obtain ⟨n, hn⟩ := hsome
  obtain ⟨p, hp, hnear⟩ := exists_denotes_of_nearest? hn
  rw [hn, ← hp.unique hx, nearestEven_eq hnear]

namespace Quantity

variable {a : Quantity} {text : String}

/-- The nearest integer to a number that can be written can be written, too. -/
theorem exists_wholeText?_of_nearest? (htext : a.text? = .ok text) (h : a.nearest? = .ok n) :
    ∃ text, wholeText? n = .ok text := by
  cases a with
  | whole m =>
    cases h
    exact ⟨text, htext⟩
  | real x =>
    obtain ⟨q, hq, hnear⟩ := exists_denotes_of_nearest? h
    refine exists_wholeText?_of_abs_le ?_
    have hsmall := abs_lt.mp hq.abs_lt
    have hclose := abs_le.mp hnear.abs_sub_le
    have hone : (1 : ℚ) ≤ 2 ^ 1024 := one_le_pow₀ one_le_two
    rw [show 1026 = 1024 + 2 from rfl, pow_add, abs_le]
    generalize (2 : ℚ) ^ 1024 = large at hsmall hone ⊢
    constructor <;> linarith

/-- A factor of a product that is printed can be written. -/
theorem exists_wholeText?_of_mul {places : ℕ} {d : FixedPoint places}
    (ha : a.isNonpositive = false) (h : ((whole n).mul a >>= Quantity.fixed? places) = .ok d) :
    ∃ text, wholeText? n = .ok text := by
  obtain ⟨product, hproduct, hprint⟩ := bind_eq_ok_iff.mp h
  obtain ⟨y, hy, -⟩ := bind_eq_ok_iff.mp hprint
  cases a with
  | real x =>
    obtain ⟨z, hz, -⟩ := bind_eq_ok_iff.mp hproduct
    exact exists_wholeText?_of_wholeFloat? hz
  | whole m =>
    cases hproduct
    have hm : 0 < m := not_le.mp (of_decide_eq_false ha)
    have hlonger := exists_wholeText?_of_wholeFloat? hy
    rw [exists_wholeText?_iff, Int.natAbs_mul] at hlonger
    rw [exists_wholeText?_iff]
    refine lt_of_le_of_lt (Nat.le_mul_of_pos_right _ ?_) hlonger
    omega

end Quantity

end

end Engraving
