import Engraving.Grid
import Engraving.Proofs.Except
import Engraving.Proofs.Number.FloatArithmetic

/-!
# The power of a pixel is rounded exactly

The power of a pixel is computed in floats: a quotient, a product and a sum, each rounded, and then
cut off to an integer. All the same the result is the nearest integer to the exact power. The exact
power is a fraction with denominator 51, so that it stays at least a hundred-and-second away from
the nearest half, while three roundings move it by much less than that.
-/

namespace Engraving

/-- The integer part of a finite float is that of its value. -/
theorem floor_ofFloat {x : Float} {q : ℚ} (hx : Denotes x q) : (Exact.ofFloat x).floor = ⌊q⌋ := by
  obtain ⟨negative, m, e, h, rfl⟩ := hx.exists_finite
  have hfraction : (if negative then -((m : ℚ) * 2 ^ e) else m * 2 ^ e)
      = (Exact.signed negative (Exact.numerator m e) : ℚ) / Exact.denominator e := by
    rw [← Exact.magnitude_eq, Rat.mkRat_eq_div, Exact.signed]
    cases negative
    · simp
    · simp [neg_div]
  rw [h, Exact.floor, hfraction, Rat.floor_intCast_div_natCast, Int.fdiv_eq_ediv_of_nonneg]
  exact Int.natCast_nonneg _

/-- A number at a distance from the integers keeps its integer part under small changes. -/
theorem floor_eq_of_abs_sub_lt {q r : ℚ} (h : ∀ n : ℤ, |r - q| < |q - n|) : ⌊r⌋ = ⌊q⌋ := by
  have hfloor := h ⌊q⌋
  have hceil := h (⌊q⌋ + 1)
  have hlow := Int.floor_le q
  have hhigh := Int.lt_floor_add_one q
  rw [abs_of_nonneg (sub_nonneg.mpr hlow)] at hfloor
  rw [Int.cast_add, Int.cast_one, abs_sub_comm q, abs_of_pos (sub_pos.mpr hhigh)] at hceil
  rw [Int.floor_eq_iff]
  constructor
  · linarith [neg_abs_le (r - q)]
  · linarith [le_abs_self (r - q)]

/-! ## Exact powers -/

/-- The power of a pixel in units, for a percentage of full power, before it is rounded. -/
def exactPower (percent dark : ℕ) : ℚ := 10 * percent * dark / 255

theorem le_abs_exactPower_sub (percent dark : ℕ) (n : ℤ) :
    1 / 102 ≤ |exactPower percent dark + 1 / 2 - n| := by
  have hfraction : exactPower percent dark + 1 / 2 - n
      = ((4 * (percent * dark : ℕ) + 51 - 102 * n : ℤ) : ℚ) / 102 := by
    rw [exactPower]
    push_cast
    ring
  -- The numerator is odd.
  have hodd : (4 * (percent * dark : ℕ) + 51 - 102 * n : ℤ) ≠ 0 := by omega
  rw [hfraction, abs_div, abs_of_pos (by norm_num : (0 : ℚ) < 102)]
  gcongr
  exact_mod_cast Int.one_le_abs hodd

theorem exactPower_nonneg (percent dark : ℕ) : 0 ≤ exactPower percent dark := by
  rw [exactPower]
  positivity

theorem exactPower_le (percent : ℕ) {dark : ℕ} (hdark : dark ≤ 255) :
    exactPower percent dark ≤ (percent * 10 : ℕ) := by
  have hcast : (dark : ℚ) ≤ 255 := by exact_mod_cast hdark
  rw [exactPower, div_le_iff₀ (by norm_num)]
  push_cast
  calc (10 : ℚ) * percent * dark ≤ 10 * percent * 255 := by gcongr
    _ = percent * 10 * 255 := by ring

/-! ## Computed powers -/

/-- Rounding a number of the size of a power hardly moves it. -/
theorem IsRounded.exists_denotes_near {x : Float} {q : ℚ} (h : IsRounded x q) (hq : |q| ≤ 4096) :
    ∃ r, Denotes x r ∧ |r - q| ≤ 1 / 2 ^ 40 := by
  obtain ⟨r, hr, herror⟩ := h.exists_denotes
    (hq.trans ((by norm_num : (4096 : ℚ) = 2 ^ 12).le.trans
      (pow_le_pow_right₀ one_le_two (by norm_num))))
  refine ⟨r, hr, herror.trans ?_⟩
  have hleast : (2 : ℚ) ^ (-1075 : ℤ) ≤ 2 ^ (-41 : ℤ) :=
    zpow_le_zpow_right₀ one_le_two (by norm_num)
  calc |q| * (2 : ℚ) ^ (-53 : ℤ) + 2 ^ (-1075 : ℤ)
      ≤ 4096 * 2 ^ (-53 : ℤ) + 2 ^ (-41 : ℤ) := by gcongr
    _ = 1 / 2 ^ 40 := by norm_num

theorem denotes_half : Denotes (0.5 : Float) (1 / 2) := by
  have hhalf : (5 : ℕ) / 10 ^ 1 = (1 / 2 : ℚ) := by norm_num
  have hround := isRounded_ofScientific 5 true (k := 1) (by norm_num)
  rw [if_pos rfl, hhalf] at hround
  have hgrid : nearestBinary (1 / 2) = 1 / 2 :=
    nearestBinary_eq_self (n := 1) (e := -1) (by norm_num) (by norm_num) (by norm_num)
  have hsmall : |nearestBinary (1 / 2)| < 2 ^ 1024 := by
    rw [hgrid]
    exact (by norm_num : |(1 / 2 : ℚ)| < 1).trans_le (one_le_pow₀ one_le_two)
  have hdenotes := hround.denotes hsmall
  rwa [hgrid] at hdenotes

/-- Three roundings leave the float close to the exact power plus a half. -/
theorem exists_denotes_power {percent dark : ℕ} (hpercent : percent ≤ 100) (hdark : dark ≤ 255) :
    ∃ r, Denotes (Float.ofNat dark / 255 * Float.ofNat (percent * 10) + 0.5) r ∧
      |r - (exactPower percent dark + 1 / 2)| < 1 / 102 := by
  have hceiling : ((percent * 10 : ℕ) : ℚ) ≤ 1000 := by exact_mod_cast (by omega)
  have hceiling_nonneg : (0 : ℚ) ≤ (percent * 10 : ℕ) := Nat.cast_nonneg _
  have hshare_nonneg : (0 : ℚ) ≤ dark / 255 := by positivity
  have hshare : (dark : ℚ) / 255 ≤ 1 := by
    rw [div_le_one (by norm_num)]
    exact_mod_cast hdark
  have hdarkFloat := denotes_ofNat (n := dark) (by omega)
  have hwhite : Denotes (255 : Float) (255 : ℕ) := denotes_ofNat (by norm_num)
  have hceilingFloat := denotes_ofNat (n := percent * 10) (by omega)
  push_cast at hwhite
  -- The share of the darkness is off by one rounding, which the product makes a thousand times.
  obtain ⟨r₁, hr₁, herror₁⟩ := (isRounded_div hdarkFloat hwhite (by norm_num)).exists_denotes_near
    (by rw [abs_of_nonneg hshare_nonneg]; linarith)
  have hproduct : |r₁ * (percent * 10 : ℕ) - exactPower percent dark| ≤ 1000 / 2 ^ 40 := by
    have hexact : exactPower percent dark = dark / 255 * (percent * 10 : ℕ) := by
      rw [exactPower]
      push_cast
      ring
    rw [hexact, ← sub_mul, abs_mul, abs_of_nonneg hceiling_nonneg]
    calc |r₁ - dark / 255| * (percent * 10 : ℕ) ≤ 1 / 2 ^ 40 * 1000 := by gcongr
      _ = 1000 / 2 ^ 40 := by ring
  have hexact_nonneg := exactPower_nonneg percent dark
  have hexact_le := (exactPower_le percent hdark).trans hceiling
  have hproduct_abs : |r₁ * (percent * 10 : ℕ)| ≤ 4096 := by
    rw [abs_le] at hproduct ⊢
    constructor <;> linarith
  obtain ⟨r₂, hr₂, herror₂⟩ :=
    (isRounded_mul hr₁ hceilingFloat).exists_denotes_near hproduct_abs
  have hsum_abs : |r₂ + 1 / 2| ≤ 4096 := by
    rw [abs_le] at hproduct herror₂ ⊢
    constructor <;> linarith
  obtain ⟨r₃, hr₃, herror₃⟩ := (isRounded_add hr₂ denotes_half).exists_denotes_near hsum_abs
  refine ⟨r₃, hr₃, ?_⟩
  rw [abs_le] at hproduct herror₂ herror₃
  rw [abs_lt]
  constructor <;> linarith

/-- The computed power is the exact one, rounded to the nearest integer. -/
theorem scaledPower_eq_round {percent dark : ℕ} (hpercent : percent ≤ 100) (hdark : dark ≤ 255) :
    (scaledPower (percent * 10) dark : ℤ) = round (exactPower percent dark) := by
  obtain ⟨r, hr, herror⟩ := exists_denotes_power hpercent hdark
  have hfloor : ⌊r⌋ = round (exactPower percent dark) := by
    rw [round_eq]
    exact floor_eq_of_abs_sub_lt fun n ↦
      herror.trans_le (le_abs_exactPower_sub percent dark n)
  have hlow : 0 ≤ round (exactPower percent dark) := by
    rw [round_eq, Int.floor_nonneg]
    have := exactPower_nonneg percent dark
    linarith
  have hhigh : round (exactPower percent dark) ≤ (percent * 10 : ℕ) := by
    rw [round_eq, ← Int.lt_add_one_iff, Int.floor_lt]
    have := exactPower_le percent hdark
    push_cast at this ⊢
    linarith
  rw [scaledPower]
  simp only [floor_ofFloat hr, hfloor, clamp]
  rw [min_eq_right hhigh, max_eq_right hlow, Int.toNat_of_nonneg hlow]

/-! ## The power of a gray value -/

theorem darkness_le (invert : Bool) (gray : UInt8) : darkness invert gray ≤ 255 := by
  have hgray : gray.toNat < 256 := gray.toNat_lt
  rw [darkness]
  split <;> omega

/-- The percentage that a setting allows: its integer part, between none and full power. -/
def percentOf (n : ℤ) : ℕ := (clamp 0 100 n).toNat

theorem percentOf_le (n : ℤ) : percentOf n ≤ 100 := by
  rw [percentOf, clamp]
  omega

/-- A gray value gets the nearest integer to its exact power. -/
theorem power?_eq_ok {maxPower : Quantity} {invert : Bool} {gray : UInt8} {power : ℕ}
    (h : power? maxPower invert gray = .ok power) :
    ∃ n, maxPower.truncate? = .ok n ∧
      (power : ℤ) = round (exactPower (percentOf n) (darkness invert gray)) := by
  rw [power?, powerCeiling?] at h
  match hn : maxPower.truncate? with
  | .error _ =>
    rw [hn] at h
    cases h
  | .ok n =>
    rw [hn] at h
    cases h
    exact ⟨n, rfl, scaledPower_eq_round (percentOf_le n) (darkness_le invert gray)⟩

/-- No power lies above the ceiling, which is ten units for a percent. -/
theorem power?_le_ceiling {maxPower : Quantity} {invert : Bool} {gray : UInt8} {power : ℕ}
    (h : power? maxPower invert gray = .ok power) :
    ∃ n, maxPower.truncate? = .ok n ∧ power ≤ 10 * percentOf n := by
  obtain ⟨ceiling, hceiling, hpower⟩ := bind_eq_ok_iff.mp h
  obtain ⟨n, hn, hn'⟩ := bind_eq_ok_iff.mp hceiling
  cases hpower
  cases hn'
  refine ⟨n, hn, ?_⟩
  rw [scaledPower, clamp, percentOf]
  omega

theorem power?_le {maxPower : Quantity} {invert : Bool} {gray : UInt8} {power : ℕ}
    (h : power? maxPower invert gray = .ok power) : power ≤ 1000 := by
  obtain ⟨n, -, hle⟩ := power?_le_ceiling h
  have hpercent := percentOf_le n
  omega

/-! ## Percentages in order -/

/-- The integer part of a number, toward zero. -/
def integerPart (q : ℚ) : ℤ := if q < 0 then ⌈q⌉ else ⌊q⌋

theorem integerPart_of_nonneg {q : ℚ} (hq : 0 ≤ q) : integerPart q = ⌊q⌋ :=
  if_neg (not_lt.mpr hq)

theorem integerPart_neg {q : ℚ} (hq : 0 ≤ q) : integerPart (-q) = -⌊q⌋ := by
  rw [integerPart]
  split_ifs with h
  · exact Int.ceil_neg
  · obtain rfl : q = 0 := le_antisymm (by linarith) hq
    simp

theorem integerPart_mono {p q : ℚ} (h : p ≤ q) : integerPart p ≤ integerPart q := by
  rw [integerPart, integerPart]
  split_ifs with hp hq hq
  · exact Int.ceil_mono h
  · exact (Int.ceil_le.mpr (by simpa using hp.le)).trans (Int.floor_nonneg.mpr (not_lt.mp hq))
  · exact absurd (h.trans_lt hq) hp
  · exact Int.floor_mono h

namespace Quantity

/-- The number that a quantity is, when it is finite. -/
def value? : Quantity → Option ℚ
  | whole n => some n
  | real x => (Exact.ofFloat x).toRat?

theorem truncate?_eq_ok {a : Quantity} {q : ℚ} (h : a.value? = some q) :
    a.truncate? = .ok (integerPart q) := by
  cases a with
  | whole n =>
    cases h
    rw [truncate?, integerPart, Int.ceil_intCast, Int.floor_intCast, ite_self]
  | real x =>
    obtain ⟨negative, m, e, hx, rfl⟩ := Denotes.exists_finite h
    have hnonneg : (0 : ℚ) ≤ m * 2 ^ e := mul_nonneg (Nat.cast_nonneg m) (two_zpow_pos e).le
    have hfloor : ⌊(m : ℚ) * 2 ^ e⌋ = ((Exact.numerator m e / Exact.denominator e : ℕ) : ℤ) := by
      rw [← Exact.magnitude_eq, Rat.mkRat_eq_div, Rat.floor_intCast_div_natCast,
        Int.natCast_ediv]
    rw [truncate?, hx, Exact.truncate?, Exact.toInt?, Exact.signed]
    cases negative
    · rw [if_neg Bool.false_ne_true, if_neg Bool.false_ne_true, integerPart_of_nonneg hnonneg,
        hfloor]
    · rw [if_pos rfl, if_pos rfl, integerPart_neg hnonneg, hfloor]

end Quantity

theorem percentOf_mono {m n : ℤ} (h : m ≤ n) : percentOf m ≤ percentOf n := by
  rw [percentOf, percentOf, clamp, clamp]
  omega

/-! ## Powers in order -/

theorem exactPower_mono {percent percent' dark dark' : ℕ} (hpercent : percent ≤ percent')
    (hdark : dark ≤ dark') : exactPower percent dark ≤ exactPower percent' dark' := by
  rw [exactPower, exactPower]
  gcongr

/-- More percent of a darker pixel give no less power. -/
theorem power?_mono {maxPower maxPower' : Quantity} {invert : Bool} {gray gray' : UInt8}
    {power power' : ℕ} {n n' : ℤ} (hn : maxPower.truncate? = .ok n)
    (hn' : maxPower'.truncate? = .ok n') (hle : n ≤ n')
    (hdark : darkness invert gray ≤ darkness invert gray')
    (h : power? maxPower invert gray = .ok power)
    (h' : power? maxPower' invert gray' = .ok power') : power ≤ power' := by
  obtain ⟨m, hm, hpower⟩ := power?_eq_ok h
  obtain ⟨m', hm', hpower'⟩ := power?_eq_ok h'
  cases hn.symm.trans hm
  cases hn'.symm.trans hm'
  have hexact := exactPower_mono (percentOf_mono hle) hdark
  have hround : round (exactPower (percentOf n) (darkness invert gray))
      ≤ round (exactPower (percentOf n') (darkness invert gray')) := by
    rw [round_eq, round_eq]
    gcongr
  omega

end Engraving
