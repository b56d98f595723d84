import Engraving.Number.Reading
import Engraving.Proofs.Number.DecimalText
import Engraving.Proofs.Number.FixedPoint
import Engraving.Proofs.Number.FloatArithmetic

/-!
# Signs of floats and printing again

What is printed of a float depends on its sign even where its value is zero. With the sign, a float
that is printed and read back is printed as before.
-/

namespace Engraving

/-! ## The sign of a float

A zero has a sign and so has an infinity, and values do not tell the sign of a zero. What is told
here holds of all of them: rounding keeps the sign of what is rounded, down to zero and up to
infinity, and so numbers with one sign have a sum with that sign. The sign is also printed, whatever
is left of the digits.
-/

section

open Float.Model (Format UnpackedFloat)
open Float.Model.UnpackedFloat

def Exact.negative? : Exact → Option Bool
  | .finite negative _ _ | .infinite negative => some negative
  | .undefined => none

/-- The float is a number with this sign. -/
def HasSign (negative : Bool) (x : Float) : Prop := (Exact.ofFloat x).negative? = some negative

variable {negative : Bool} {x y : Float} {s t : Sign} {u v : UnpackedFloat}

/-! ### Parts -/

theorem hasSign_iff :
    HasSign negative x ↔ ∃ s, (s == .negative) = negative ∧
      unpackedSign? x.toModel.unpack = some s := by
  rw [HasSign, ofFloat_eq_exactOf]
  match x.toModel.unpack with
  | .notANumber => exact ⟨fun h ↦ (nomatch h), fun ⟨_, _, h⟩ ↦ (nomatch h)⟩
  | .zero s | .infinity s | .finite s _ _ _ =>
    constructor
    · intro h
      exact ⟨s, Option.some.inj h, rfl⟩
    · rintro ⟨_, rfl, h⟩
      obtain rfl := Option.some.inj h
      rfl

theorem hasSign_ofModel_pack (h : unpackedSign? u = some s) :
    HasSign (s == .negative) (Float.ofModel (Float.Model.pack u)) :=
  hasSign_iff.mpr ⟨s, rfl, (unpackedSign?_stored u).trans h⟩

/-! ### Rounding -/

theorem unpackedSign?_roundWithAccuracy (s : Sign) (m : ℕ) (e : ℤ) (acc : Accuracy) :
    unpackedSign? (roundWithAccuracy Format.binary64 s m e acc) = some s := by
  rw [roundWithAccuracy]
  dsimp only
  split_ifs <;> rfl

theorem unpackedSign?_round (s : Sign) (m : ℕ) (e : ℤ) :
    unpackedSign? (UnpackedFloat.round Format.binary64 s m e) = some s :=
  unpackedSign?_roundWithAccuracy _ _ _ _

theorem unpackedSign?_normalize (s : Sign) {n : ℕ} (hn : 0 < n) (e : ℤ) (zeroSign : Sign) :
    unpackedSign? (UnpackedFloat.normalize Format.binary64 (s.apply n) e zeroSign) = some s := by
  have hpos : (0 : ℤ) < n := by exact_mod_cast hn
  rw [UnpackedFloat.normalize]
  cases s
  · rw [Sign.apply, compare_lt_iff_lt.mpr (neg_lt_zero.mpr hpos)]
    exact unpackedSign?_round _ _ _
  · rw [Sign.apply, compare_gt_iff_gt.mpr hpos]
    exact unpackedSign?_round _ _ _

/-! ### Operations -/

theorem unpackedSign?_add (hu : unpackedSign? u = some s) (hv : unpackedSign? v = some s) :
    unpackedSign? (UnpackedFloat.add Format.binary64 u v) = some s := by
  have hself : (s == s) = true := by cases s <;> rfl
  match u, v, hu, hv with
  | .zero s, .zero _, rfl, rfl | .infinity s, .infinity _, rfl, rfl =>
    rw [UnpackedFloat.add, if_pos hself]
    rfl
  | .zero s, .infinity _, rfl, rfl | .zero s, .finite .., rfl, rfl
  | .infinity s, .zero _, rfl, rfl | .infinity s, .finite .., rfl, rfl
  | .finite s .., .zero _, rfl, rfl | .finite s .., .infinity _, rfl, rfl => rfl
  | .finite s m e hm, .finite _ n f hn, rfl, rfl =>
    -- Significands with one sign do not cancel.
    have hsum (a b : ℕ) : (s.apply a : ℤ) + s.apply b = s.apply (a + b : ℕ) := by
      cases s
      · exact (neg_add (a : ℤ) b).symm
      · rfl
    rw [UnpackedFloat.add]
    dsimp only
    rw [hsum]
    refine unpackedSign?_normalize s (Nat.add_pos_left ?_ _) _ _
    rw [decreaseExponent, Nat.shiftLeft_eq]
    positivity

theorem unpackedSign?_div (hu : unpackedSign? u = some s) {n : ℕ} (f : ℤ) (hn : 0 < n) :
    unpackedSign? (UnpackedFloat.div Format.binary64 u (.finite t n f hn)) = some (s / t) := by
  match u, hu with
  | .zero s, rfl | .infinity s, rfl => rfl
  | .finite s .., rfl => exact unpackedSign?_roundWithAccuracy _ _ _ _

theorem unpackedSign?_mul (hu : unpackedSign? u = some s) {n : ℕ} (f : ℤ) (hn : 0 < n) :
    unpackedSign? (UnpackedFloat.mul Format.binary64 u (.finite t n f hn)) = some (s * t) := by
  match u, hu with
  | .zero s, rfl | .infinity s, rfl => rfl
  | .finite s .., rfl => exact unpackedSign?_roundWithAccuracy _ _ _ _

theorem HasSign.add (hx : HasSign negative x) (hy : HasSign negative y) :
    HasSign negative (x + y) := by
  obtain ⟨s, rfl, hs⟩ := hasSign_iff.mp hx
  obtain ⟨t, hst, ht⟩ := hasSign_iff.mp hy
  obtain rfl : t = s := by cases s <;> cases t <;> first | rfl | cases hst
  exact hasSign_ofModel_pack (unpackedSign?_add hs ht)

theorem HasSign.neg (hx : HasSign negative x) : HasSign (!negative) (-x) := by
  rw [HasSign, ofFloat_neg]
  rw [HasSign] at hx
  match hvalue : Exact.ofFloat x with
  | .finite .. | .infinite _ =>
    rw [hvalue] at hx
    obtain rfl := Option.some.inj hx
    rfl
  | .undefined =>
    rw [hvalue] at hx
    cases hx

theorem HasSign.foldl_add {rest : List Float} (hx : HasSign negative x)
    (hrest : ∀ y ∈ rest, HasSign negative y) : HasSign negative (rest.foldl (· + ·) x) := by
  induction rest generalizing x with
  | nil => exact hx
  | cons y rest ih =>
    obtain ⟨hy, hlater⟩ := List.forall_mem_cons.mp hrest
    exact ih (hx.add hy) hlater

/-! ### Decimals -/

theorem Denotes.exists_unpack_of_pos {q : ℚ} (hy : Denotes y q) (hq : 0 < q) :
    ∃ m e hm, y.toModel.unpack = .finite .positive m e hm := by
  rcases hy.parts with ⟨rfl, -⟩ | ⟨s, m, e, hm, -, -, rfl, hs⟩
  · exact absurd hq (lt_irrefl 0)
  cases s
  · exact absurd (neg_pos.mp hq) (not_lt.mpr (by positivity))
  · exact ⟨m, e, hm, hs⟩

theorem HasSign.div_of_pos (hx : HasSign negative x) {q : ℚ} (hy : Denotes y q) (hq : 0 < q) :
    HasSign negative (x / y) := by
  obtain ⟨s, rfl, hs⟩ := hasSign_iff.mp hx
  obtain ⟨m, e, hm, hparts⟩ := hy.exists_unpack_of_pos hq
  have hsign : s / Sign.positive = s := by cases s <;> rfl
  have hdiv := unpackedSign?_div (t := .positive) hs e hm
  rw [← hparts, hsign] at hdiv
  exact hasSign_ofModel_pack hdiv

theorem HasSign.mul_of_pos (hx : HasSign negative x) {q : ℚ} (hy : Denotes y q) (hq : 0 < q) :
    HasSign negative (x * y) := by
  obtain ⟨s, rfl, hs⟩ := hasSign_iff.mp hx
  obtain ⟨m, e, hm, hparts⟩ := hy.exists_unpack_of_pos hq
  have hsign : s * Sign.positive = s := by cases s <;> rfl
  have hmul := unpackedSign?_mul (t := .positive) hs e hm
  rw [← hparts, hsign] at hmul
  exact hasSign_ofModel_pack hmul

theorem hasSign_toFloat (n : UInt64) : HasSign false n.toFloat := by
  have hnormalize : unpackedSign? (UnpackedFloat.normalize Format.binary64 n.toNat 0 .positive)
      = some .positive := by
    rcases Nat.eq_zero_or_pos n.toNat with hzero | hpos
    · rw [hzero]
      rfl
    · exact unpackedSign?_normalize .positive hpos 0 .positive
  exact hasSign_ofModel_pack hnormalize

theorem hasSign_ofScientific (m : ℕ) (e : ℤ) :
    HasSign false (Float.ofModel (Float.Model.ofScientific m e)) := by
  have hsign : unpackedSign? (UnpackedFloat.ofScientific Format.binary64 m e)
      = some .positive := by
    rw [UnpackedFloat.ofScientific]
    split_ifs
    · rfl
    · rfl
    · rfl
    · exact unpackedSign?_roundWithAccuracy _ _ _ _
    · exact unpackedSign?_roundWithAccuracy _ _ _ _
  exact hasSign_ofModel_pack hsign

/-- A decimal without a sign is read as a number without a sign, whatever its digits are and however
long it is. -/
theorem hasSign_decimalFloat (digits : ℕ) (exponent : ℤ) :
    HasSign false (decimalFloat digits exponent) := by
  rw [decimalFloat, Float.ofScientific]
  split_ifs with hshort hneg hneg
  · have hpower := denotes_powerOfTen exponent.natAbs (Nat.lt_of_le_of_lt hshort.2 (by decide))
    exact (hasSign_toFloat _).div_of_pos hpower (by positivity)
  · have hpower := denotes_powerOfTen exponent.natAbs (Nat.lt_of_le_of_lt hshort.2 (by decide))
    exact (hasSign_toFloat _).mul_of_pos hpower (by positivity)
  · exact hasSign_ofScientific _ _
  · exact hasSign_ofScientific _ _

/-! ### Printing -/

theorem HasSign.ofFloat (h : HasSign negative x) (places : ℕ) :
    (∃ units, FixedPoint.ofFloat places x = .finite negative units) ∨
      FixedPoint.ofFloat places x = .infinite negative := by
  rw [HasSign] at h
  rw [FixedPoint.ofFloat]
  rcases hvalue : Exact.ofFloat x with ⟨_, _, _⟩ | _ | _
  · rw [hvalue] at h
    obtain rfl := Option.some.inj h
    exact .inl ⟨_, rfl⟩
  · rw [hvalue] at h
    obtain rfl := Option.some.inj h
    exact .inr rfl
  · rw [hvalue] at h
    cases h

end

/-! ## Printing again

A float that is printed as a decimal and read back need not be the same float, but it is printed as
the same decimal. For the float that is read is the nearest one to the decimal, so it is no farther
from it than the float that was printed, and the decimal is the nearest one to it, too. The sign is
carried along even if the digits are all zero.
-/

/-- The nearest decimal to a point of the grid is the nearest decimal to its own nearest point. -/
theorem nearestDecimal_nearestBinary (places : ℕ) {q : ℚ} (hq : nearestBinary q = q) :
    nearestDecimal places (nearestBinary (nearestDecimal places q)) = nearestDecimal places q := by
  have hpos : (0 : ℚ) < 10 ^ places := by positivity
  have hscaled (r : ℚ) : |r * 10 ^ places - nearestEven (q * 10 ^ places)|
      = |r - nearestDecimal places q| * 10 ^ places := by
    rw [nearestDecimal, ← abs_of_pos hpos, ← abs_mul, abs_of_pos hpos, sub_mul,
      div_mul_cancel₀ _ hpos.ne']
  have hnearer : |nearestBinary (nearestDecimal places q) * 10 ^ places
      - nearestEven (q * 10 ^ places)|
        ≤ |q * 10 ^ places - nearestEven (q * 10 ^ places)| := by
    rw [hscaled, hscaled]
    exact mul_le_mul_of_nonneg_right (abs_nearestBinary_sub_le_of_grid hq _) hpos.le
  have hnearest := (isNearestEven_nearestEven (q * 10 ^ places)).of_abs_sub_le hnearer
  rw [nearestDecimal, nearestEven_eq hnearest, nearestDecimal]

namespace FixedPoint

variable {places : ℕ} {x y : Float}

/-- **Printing is stable.** A finite float is printed like the float that is read from its print. -/
theorem ofFloat_eq_of_readFloat? (hpos : 0 < places) (hle : places ≤ 2048)
    (hx : (Exact.ofFloat x).isFinite = true)
    (hy : readFloat? (ofFloat places x).text.toList = some y) :
    ofFloat places y = ofFloat places x := by
  obtain ⟨q, hq⟩ := isFinite_iff_denotes.mp hx
  obtain ⟨y', hread, hy'⟩ := hq.exists_readFloat? hpos hle
  obtain rfl := Option.some.inj (hy.symm.trans hread)
  have hvalue : (ofFloat places y).value? = (ofFloat places x).value? := by
    rw [value?_ofFloat hy', value?_ofFloat hq,
      nearestDecimal_nearestBinary places hq.nearestBinary_eq]
  match hprint : ofFloat places x with
  | .infinite _ | .undefined =>
    have hsome : (ofFloat places x).value? = some (nearestDecimal places q) := value?_ofFloat hq
    rw [hprint] at hsome
    cases hsome
  | .finite negative units =>
    rw [hprint, readFloat?_text hpos, Option.some.injEq] at hy
    -- The values agree, which tells the digits, but not the sign of a zero.
    have hsign : HasSign negative y := by
      have hdecimal := hasSign_decimalFloat units (-places)
      rw [← hy]
      cases negative
      · exact hdecimal
      · exact hdecimal.neg
    rw [hprint] at hvalue
    rcases hsign.ofFloat places with ⟨units', hfinite⟩ | hinfinite
    · rw [hfinite] at hvalue ⊢
      rw [finite_eq_of_value?_eq hvalue]
    · rw [hinfinite, value?_finite] at hvalue
      cases hvalue

end FixedPoint

end Engraving
