import Engraving.Proofs.Number.Significand

/-!
# The values of floats

A finite float denotes a rational number. An operation on floats ends in an unpacked number that is
stored; what is stored is the exact result brought to the nearest point of the binary64 grid, or an
infinity when that point is `2¹⁰²⁴` or more. This file gets from the parts to that statement,
`IsRounded`, which says nothing of parts any more.
-/

open Float.Model (Format UnpackedFloat totalExponent)
open Float.Model.UnpackedFloat

namespace Engraving

/-- The float `x` is finite, and `q` is its value. -/
def Denotes (x : Float) (q : ℚ) : Prop := (Exact.ofFloat x).toRat? = some q

/-- The float `x` is the result `q`, rounded to nearest; infinite when it lies too far out. -/
def IsRounded (x : Float) (q : ℚ) : Prop :=
  (|nearestBinary q| < 2 ^ 1024 ∧ Denotes x (nearestBinary q)) ∨
  (2 ^ 1024 ≤ |nearestBinary q| ∧ Exact.ofFloat x = .infinite (decide (q < 0)))

/-! ## The value of the parts -/

/-- A magnitude with a sign put before it. -/
def signedRat (s : Sign) (q : ℚ) : ℚ :=
  match s with
  | .negative => -q
  | .positive => q

theorem signedRat_apply (s : Sign) (n : ℕ) : ((s.apply n : ℤ) : ℚ) = signedRat s n := by
  cases s <;> simp [Sign.apply, signedRat]

theorem abs_signedRat (s : Sign) (q : ℚ) : |signedRat s q| = |q| := by
  cases s
  · exact abs_neg q
  · rfl

theorem nearestBinary_signedRat (s : Sign) (q : ℚ) :
    nearestBinary (signedRat s q) = signedRat s (nearestBinary q) := by
  cases s
  · exact nearestBinary_neg q
  · rfl

theorem signedRat_mul (s t : Sign) (p q : ℚ) :
    signedRat s p * signedRat t q = signedRat (s * t) (p * q) := by
  cases s <;> cases t
  · exact neg_mul_neg p q
  · exact neg_mul p q
  · exact mul_neg p q
  · rfl

theorem signedRat_div (s t : Sign) (p q : ℚ) :
    signedRat s p / signedRat t q = signedRat (s / t) (p / q) := by
  cases s <;> cases t
  · exact neg_div_neg_eq p q
  · exact neg_div q p
  · exact div_neg p
  · rfl

theorem Exact.magnitude_eq (m : ℕ) (e : ℤ) :
    mkRat (Exact.numerator m e) (Exact.denominator e) = m * 2 ^ e := by
  have hpow : (Nat.pow 2 e.toNat : ℚ) / Nat.pow 2 (-e).toNat = 2 ^ e := by
    rw [Nat.pow_eq, Nat.pow_eq, Nat.cast_pow, Nat.cast_pow, Nat.cast_ofNat, ← zpow_natCast,
      ← zpow_natCast, ← zpow_sub₀ two_ne_zero]
    congr 1
    omega
  rw [Rat.mkRat_eq_div, Exact.numerator, Exact.denominator, ← hpow]
  push_cast
  ring

theorem Exact.toRat?_finite (negative : Bool) (m : ℕ) (e : ℤ) :
    (Exact.finite negative m e).toRat?
      = some (if negative then -((m : ℚ) * 2 ^ e) else m * 2 ^ e) := by
  rw [Exact.toRat?, Exact.magnitude_eq]

def exactOf : UnpackedFloat → Exact
  | .finite s m e _ => .finite (s == .negative) m e
  | .zero s => .finite (s == .negative) 0 0
  | .infinity s => .infinite (s == .negative)
  | .notANumber => .undefined

theorem ofFloat_eq_exactOf (x : Float) : Exact.ofFloat x = exactOf x.toModel.unpack := by
  rw [Exact.ofFloat]
  cases x.toModel.unpack <;> rfl

theorem toRat?_exactOf_finite (s : Sign) (m : ℕ) (e : ℤ) (hm : 0 < m) :
    (exactOf (.finite s m e hm)).toRat? = some (signedRat s (m * 2 ^ e)) := by
  rw [exactOf, Exact.toRat?_finite]
  cases s <;> rfl

theorem toRat?_exactOf_zero (s : Sign) : (exactOf (.zero s)).toRat? = some 0 := by
  rw [exactOf, Exact.toRat?_finite, Nat.cast_zero, zero_mul, neg_zero, ite_self]

/-- A float that denotes a number is made of a significand and an exponent. -/
theorem Denotes.exists_finite {x : Float} {q : ℚ} (h : Denotes x q) :
    ∃ (negative : Bool) (m : ℕ) (e : ℤ), Exact.ofFloat x = .finite negative m e ∧
      q = if negative then -((m : ℚ) * 2 ^ e) else m * 2 ^ e := by
  rw [Denotes] at h
  cases hx : Exact.ofFloat x with
  | finite negative m e =>
    rw [hx, Exact.toRat?_finite] at h
    exact ⟨negative, m, e, rfl, (Option.some.inj h).symm⟩
  | infinite _ =>
    rw [hx] at h
    cases h
  | undefined =>
    rw [hx] at h
    cases h

/-- A float that denotes a number is a zero or has canonical parts. -/
theorem Denotes.parts {x : Float} {q : ℚ} (h : Denotes x q) :
    (q = 0 ∧ ∃ s, x.toModel.unpack = .zero s) ∨
    ∃ (s : Sign) (m : ℕ) (e : ℤ) (hm : 0 < m), IsCanonical m e ∧ e ≤ 971 ∧
      q = signedRat s (m * 2 ^ e) ∧ x.toModel.unpack = .finite s m e hm := by
  rw [Denotes, ofFloat_eq_exactOf] at h
  match hu : x.toModel.unpack with
  | .notANumber =>
    rw [hu] at h
    cases h
  | .infinity s =>
    rw [hu] at h
    cases h
  | .zero s =>
    rw [hu, toRat?_exactOf_zero] at h
    exact Or.inl ⟨(Option.some.inj h).symm, s, rfl⟩
  | .finite s m e hm =>
    rw [hu, toRat?_exactOf_finite] at h
    obtain ⟨hcanonical, he⟩ := isCanonical_of_unpack hu
    exact Or.inr ⟨s, m, e, hm, hcanonical, he, (Option.some.inj h).symm, rfl⟩

theorem denotes_of_unpack_zero {x : Float} {s : Sign} (h : x.toModel.unpack = .zero s) :
    Denotes x 0 := by
  rw [Denotes, ofFloat_eq_exactOf, h, toRat?_exactOf_zero]

theorem denotes_of_unpack_finite {x : Float} {s : Sign} {m : ℕ} {e : ℤ} {hm : 0 < m}
    (h : x.toModel.unpack = .finite s m e hm) : Denotes x (signedRat s (m * 2 ^ e)) := by
  rw [Denotes, ofFloat_eq_exactOf, h, toRat?_exactOf_finite]

theorem Denotes.unique {x : Float} {p q : ℚ} (hp : Denotes x p) (hq : Denotes x q) : p = q :=
  Option.some.inj (hp.symm.trans hq)

theorem isFinite_iff_denotes {x : Float} :
    (Exact.ofFloat x).isFinite = true ↔ ∃ q, Denotes x q := by
  constructor
  · intro h
    match hx : Exact.ofFloat x with
    | .finite negative m e => exact ⟨_, by rw [Denotes, hx]; rfl⟩
    | .infinite _ =>
      rw [hx] at h
      cases h
    | .undefined =>
      rw [hx] at h
      cases h
  · rintro ⟨q, hq⟩
    obtain ⟨negative, m, e, hx, -⟩ := hq.exists_finite
    rw [hx]
    rfl

/-! ## Finite floats on the grid -/

theorem IsCanonical.abs_lt {m : ℕ} {e : ℤ} (h : IsCanonical m e) :
    (m : ℚ) * 2 ^ e < 2 ^ (e + 53) := by
  rw [zpow_add₀ two_ne_zero, mul_comm]
  refine mul_lt_mul_of_pos_left ?_ (two_zpow_pos e)
  exact_mod_cast h.lt

theorem IsCanonical.nearestBinary_eq {m : ℕ} {e : ℤ} (h : IsCanonical m e) :
    nearestBinary (m * 2 ^ e) = m * 2 ^ e := by
  refine nearestBinary_eq_self (n := m) rfl ?_ h.least_le
  rw [Nat.abs_cast]
  exact_mod_cast h.lt.le

/-- The exponents that fit are those of the numbers below `2¹⁰²⁴`. -/
theorem IsCanonical.lt_two_pow_iff {m : ℕ} {e : ℤ} (h : IsCanonical m e) :
    (m : ℚ) * 2 ^ e < 2 ^ 1024 ↔ e ≤ 971 := by
  constructor
  · intro hlt
    by_contra he
    have hnormal : 2 ^ 52 ≤ m := h.normal_or_least.resolve_right (by omega)
    have hge : (2 : ℚ) ^ (52 + e) ≤ m * 2 ^ e := by
      rw [zpow_add₀ two_ne_zero]
      refine mul_le_mul_of_nonneg_right ?_ (two_zpow_pos e).le
      exact_mod_cast hnormal
    have hpow : (2 : ℚ) ^ (1024 : ℤ) ≤ 2 ^ (52 + e) := zpow_le_zpow_right₀ one_le_two (by omega)
    rw [show (1024 : ℤ) = ((1024 : ℕ) : ℤ) from rfl, zpow_natCast] at hpow
    exact absurd hlt (not_lt.mpr (hpow.trans hge))
  · intro he
    refine h.abs_lt.trans_le ?_
    rw [← zpow_natCast]
    exact zpow_le_zpow_right₀ one_le_two (by push_cast; omega)

theorem Denotes.nearestBinary_eq {x : Float} {q : ℚ} (h : Denotes x q) : nearestBinary q = q := by
  rcases h.parts with ⟨rfl, -⟩ | ⟨s, m, e, hm, hcanonical, -, rfl, -⟩
  · exact nearestBinary_zero
  · rw [nearestBinary_signedRat, hcanonical.nearestBinary_eq]

theorem Denotes.abs_lt {x : Float} {q : ℚ} (h : Denotes x q) : |q| < 2 ^ 1024 := by
  rcases h.parts with ⟨rfl, -⟩ | ⟨s, m, e, hm, hcanonical, he, rfl, -⟩
  · rw [abs_zero]
    positivity
  · rw [abs_signedRat, abs_of_pos (mul_pos (by exact_mod_cast hm) (two_zpow_pos e))]
    exact hcanonical.lt_two_pow_iff.mpr he

theorem IsRounded.denotes {x : Float} {q : ℚ} (h : IsRounded x q)
    (hsmall : |nearestBinary q| < 2 ^ 1024) : Denotes x (nearestBinary q) := by
  rcases h with ⟨-, hvalue⟩ | ⟨hbig, -⟩
  · exact hvalue
  · exact absurd hsmall (not_lt.mpr hbig)

/-- A result that is not too large is finite, and close to what was rounded. -/
theorem IsRounded.exists_denotes {x : Float} {q : ℚ} (h : IsRounded x q) (hq : |q| ≤ 2 ^ 1022) :
    ∃ r, Denotes x r ∧ |r - q| ≤ |q| * 2 ^ (-53 : ℤ) + 2 ^ (-1075 : ℤ) :=
  ⟨_, h.denotes (abs_nearestBinary_lt hq), abs_nearestBinary_sub_le q⟩

theorem IsRounded.eq_nearestBinary {x : Float} {p q : ℚ} (h : IsRounded x q) (hx : Denotes x p) :
    p = nearestBinary q := by
  rcases h with ⟨-, hvalue⟩ | ⟨-, hinfinite⟩
  · exact hx.unique hvalue
  · rw [Denotes, hinfinite] at hx
    cases hx

/-! ## Results before they are stored -/

/-- The unpacked number `u` is `q` on the grid, in canonical parts of whatever exponent. -/
def UnpackedRounded (u : UnpackedFloat) (q : ℚ) : Prop :=
  (nearestBinary q = 0 ∧ ∃ s, u = .zero s) ∨
  ∃ (s : Sign) (m : ℕ) (e : ℤ) (hm : 0 < m), IsCanonical m e ∧
    nearestBinary q = signedRat s (m * 2 ^ e) ∧ u = .finite s m e hm

/-- The sign of a result survives rounding, as long as anything does. -/
private theorem sign_eq {s : Sign} {r q : ℚ} (hr : 0 < r) (h : nearestBinary q = signedRat s r) :
    (s == .negative) = decide (q < 0) := by
  cases s
  · have hq : q < 0 := by
      by_contra hq
      have hnonneg := nearestBinary_nonneg (not_lt.mp hq)
      rw [h, signedRat] at hnonneg
      linarith
    rw [decide_eq_true hq]
    rfl
  · have hq : ¬q < 0 := by
      intro hq
      have hnonneg := nearestBinary_nonneg (neg_pos.mpr hq).le
      rw [nearestBinary_neg, h, signedRat] at hnonneg
      linarith
    rw [decide_eq_false hq]
    rfl

theorem UnpackedRounded.isRounded {u : UnpackedFloat} {q : ℚ} (h : UnpackedRounded u q) :
    IsRounded (Float.ofModel (Float.Model.pack u)) q := by
  rcases h with ⟨hzero, s, rfl⟩ | ⟨s, m, e, hm, hcanonical, hvalue, rfl⟩
  · left
    rw [hzero, abs_zero]
    exact ⟨by positivity, denotes_of_unpack_zero (stored_zero s)⟩
  have hpos : 0 < (m : ℚ) * 2 ^ e := mul_pos (by exact_mod_cast hm) (two_zpow_pos e)
  have habs : |nearestBinary q| = m * 2 ^ e := by
    rw [hvalue, abs_signedRat, abs_of_pos hpos]
  rcases le_or_gt e 971 with he | he
  · left
    rw [habs, hvalue]
    exact ⟨hcanonical.lt_two_pow_iff.mpr he,
      denotes_of_unpack_finite (m := m) (s := s) (e := e) (stored_finite hcanonical he)⟩
  · right
    refine ⟨?_, ?_⟩
    · rw [habs, ← not_lt, hcanonical.lt_two_pow_iff]
      exact not_le.mpr he
    · have hstored : (Float.ofModel (Float.Model.pack (.finite s m e hm))).toModel.unpack
          = .infinity s := stored_finite_of_lt he
      rw [ofFloat_eq_exactOf, hstored, exactOf, sign_eq hpos hvalue]

theorem unpackedRounded_roundWithAccuracy {q : ℚ} {m : ℕ} {e : ℤ} {acc : Accuracy} (s : Sign)
    (hq : 0 < q) (h : Locates (.ofMantissaAndAccuracy m acc) (q / 2 ^ e))
    (he : e ≤ lastPlace q) :
    UnpackedRounded (roundWithAccuracy Format.binary64 s m e acc) (signedRat s q) := by
  rcases roundWithAccuracy_eq s hq h he with
    ⟨hzero, hround⟩ | ⟨m', e', hm', hcanonical, hvalue, hround⟩
  · left
    refine ⟨?_, s, hround⟩
    rw [nearestBinary_signedRat, hzero]
    cases s
    · exact neg_zero
    · rfl
  · right
    refine ⟨s, m', e', hm', hcanonical, ?_, hround⟩
    rw [nearestBinary_signedRat, hvalue]

/-- A positive number with an exact significand, as long as the grid is no finer than that. -/
theorem unpackedRounded_exact (s : Sign) {m : ℕ} {e : ℤ} (hm : 0 < m)
    (he : e ≤ lastPlace (m * 2 ^ e)) :
    UnpackedRounded (roundWithAccuracy Format.binary64 s m e .exact)
      (signedRat s (m * 2 ^ e)) := by
  have hpos := two_zpow_pos e
  refine unpackedRounded_roundWithAccuracy s (mul_pos (by exact_mod_cast hm) hpos) ?_ he
  rw [mul_div_cancel_right₀ _ hpos.ne']
  exact locates_exact m

theorem shiftLeft_mul_two_zpow (m : ℕ) (e : ℤ) (k : ℕ) :
    ((m <<< k : ℕ) : ℚ) * 2 ^ (e - k) = m * 2 ^ e := by
  have hpow : (2 : ℚ) ^ e = 2 ^ k * 2 ^ (e - k) := by
    rw [← zpow_natCast, ← zpow_add₀ two_ne_zero, add_sub_cancel]
  rw [Nat.shiftLeft_eq, hpow]
  push_cast
  ring

/-- Before it is rounded, a short significand gets as many places as the grid asks for. -/
theorem unpackedRounded_round (s : Sign) {m : ℕ} (hm : 0 < m) (e : ℤ) :
    UnpackedRounded (UnpackedFloat.round Format.binary64 s m e) (signedRat s (m * 2 ^ e)) := by
  have hq : (0 : ℚ) < m * 2 ^ e := mul_pos (by exact_mod_cast hm) (two_zpow_pos e)
  have hlocates : Locates (.ofMantissaAndAccuracy m .exact) ((m : ℚ) * 2 ^ e / 2 ^ e) := by
    rw [mul_div_cancel_right₀ _ (two_zpow_pos e).ne']
    exact locates_exact m
  rw [UnpackedFloat.round]
  dsimp only
  rw [targetExponent_eq_lastPlace hq hlocates (.inl hm), decreaseExponent]
  generalize hk : (e - lastPlace (m * 2 ^ e)).toNat = k
  have hvalue := shiftLeft_mul_two_zpow m e k
  rw [← hvalue]
  refine unpackedRounded_exact s ?_ ?_
  · rw [Nat.shiftLeft_eq]
    positivity
  · rw [hvalue]
    omega

theorem unpackedRounded_normalize (n : ℤ) (e : ℤ) (s : Sign) :
    UnpackedRounded (UnpackedFloat.normalize Format.binary64 n e s) (n * 2 ^ e) := by
  rw [UnpackedFloat.normalize]
  rcases lt_trichotomy n 0 with hn | rfl | hn
  · rw [compare_lt_iff_lt.mpr hn]
    have hround := unpackedRounded_round .negative (m := (-n).toNat) (by omega) e
    have hcast : (((-n).toNat : ℕ) : ℚ) = -n := by
      rw [← Int.cast_natCast, Int.toNat_of_nonneg (by omega), Int.cast_neg]
    rw [hcast, signedRat, neg_mul, neg_neg] at hround
    exact hround
  · left
    rw [Int.cast_zero, zero_mul]
    exact ⟨nearestBinary_zero, s, rfl⟩
  · rw [compare_gt_iff_gt.mpr hn]
    have hround := unpackedRounded_round .positive (m := n.toNat) (by omega) e
    have hcast : ((n.toNat : ℕ) : ℚ) = n := by
      rw [← Int.cast_natCast, Int.toNat_of_nonneg (by omega)]
    rw [hcast, signedRat] at hround
    exact hround

end Engraving
