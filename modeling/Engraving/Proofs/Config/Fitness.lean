import Engraving.Proofs.Config.Acceptance
import Engraving.Proofs.Number.FloatOrder
import Engraving.Proofs.Program.Refusal
import Engraving.Proofs.Program.Validity

/-!
# Configurations that are fit to engrave with

A configuration is accepted when none of its sizes is seen to be zero or less, and when its feed
rate is positive. That is not enough to engrave with it: a size may be infinite or no number at all,
it may be so small that a step is rounded to zero, the topmost row may lie beyond the finite floats,
and so may the feed rate. Here is told what else it takes, for a grid of pixels.
-/

namespace Engraving

open Document

/-! ## Lengths that are divided among pixels -/

theorem div_ofWhole_eq_ok_iff {x : Float} {n : ℤ} {a : Quantity} :
    Checked.div (Quantity.real x) (Checked.ofWhole n) = .ok a ↔
      ∃ y, wholeFloat? n = .ok y ∧ (y == 0) = false ∧ a = .real (x / y) := by
  change (wholeFloat? n >>= fun y ↦
    if y == 0 then Except.error NumberError.divisionByZero else .ok (Quantity.real (x / y))) = _ ↔ _
  rw [bind_eq_ok_iff]
  refine exists_congr fun y ↦ and_congr_right' ?_
  rcases y == 0 with _ | _
  · exact ⟨fun h ↦ ⟨rfl, (Except.ok.inj h).symm⟩, fun h ↦ congrArg Except.ok h.2.symm⟩
  · exact iff_of_false nofun nofun

theorem denotes_real_iff {x : Float} {q : ℚ} : (Quantity.real x).Denotes q ↔ Denotes x q := by
  constructor
  · rintro ⟨_, ⟨⟩, h⟩
    exact h
  · intro h
    exact ⟨x, rfl, h⟩

theorem eq_ofInt_of_wholeFloat? {n : ℤ} {x : Float} (h : wholeFloat? n = .ok x) :
    x = Float.ofInt n := by
  rw [wholeFloat?] at h
  split at h
  · exact (Except.ok.inj h).symm
  · cases h

theorem isNonpositive_real {x : Float} {q : ℚ} (hx : Denotes x q) (hq : 0 < q) :
    Checked.isNonpositive (Quantity.real x) = false :=
  decide_eq_false (mt hx.le_zero_iff.mp hq.not_ge)

/-- Among so many pixels a length can be divided. -/
structure IsDivisible (length : Float) (n : ℤ) : Prop where
  count : |(n : ℚ)| < 2 ^ 1024 - 2 ^ 970
  /-- The length is finite, and its part is not rounded to zero. -/
  part : ∃ q, Denotes length q ∧ 2 ^ (-1075 : ℤ) < q / nearestBinary n

theorem isDivisible_iff {length : Float} {n : ℤ} (hn : 0 < n) :
    IsDivisible length n ↔ ∃ y, wholeFloat? n = .ok y ∧ ∃ q, Denotes (length / y) q ∧ 0 < q := by
  constructor
  · rintro ⟨hcount, hpart⟩
    obtain ⟨y, hy⟩ := exists_wholeFloat?_iff.mpr hcount
    exact ⟨y, hy, (exists_denotes_div_pos_iff (denotes_of_wholeFloat? hy)
      (one_le_nearestBinary hn)).mpr hpart⟩
  · rintro ⟨y, hy, hpart⟩
    exact ⟨exists_wholeFloat?_iff.mp ⟨y, hy⟩, (exists_denotes_div_pos_iff
      (denotes_of_wholeFloat? hy) (one_le_nearestBinary hn)).mp hpart⟩

/-! ## Fitness -/

namespace Config

variable {c : Config} {grid : Grid} {invert : Bool}

/-- The setting at the size of a configuration. -/
def setting? (c : Config) (grid : Grid) (invert : Bool) :
    Except (SettingError Quantity) (Setting Quantity) :=
  Setting.forSize? grid (.real c.layout.width) (.real c.layout.height) (.whole c.laser.maxPower)
    (.whole c.laser.feedRate) invert

/-- A configuration is fit to engrave a grid with: there is a setting, its step and its row pitch
are positive finite numbers, and there is a program with finite coordinates. -/
def IsFit (c : Config) (grid : Grid) (invert : Bool) : Prop :=
  ∃ s, c.setting? grid invert = .ok s ∧ (∃ q, s.step.Denotes q ∧ 0 < q) ∧
    (∃ q, s.rowPitch.Denotes q ∧ 0 < q) ∧
      ∃ w, compile? s grid (.real c.layout.startX) (.real c.layout.startY) = .ok w ∧
        w.HasFiniteCoordinates

/-- The height of the topmost row, as it is computed. -/
def top (c : Config) (grid : Grid) : Float :=
  let pitch := c.layout.height / Float.ofInt grid.height
  c.layout.startY + Float.ofInt grid.height * pitch - pitch

/-- What it takes for a configuration to be fit to engrave a grid with. -/
structure Suits (c : Config) (grid : Grid) : Prop where
  width : IsDivisible c.layout.width grid.width
  height : IsDivisible c.layout.height grid.height
  left : ∃ q, Denotes c.layout.startX q
  top : ∃ q, Denotes (c.top grid) q
  feedRate : |(c.laser.feedRate : ℚ)| < 2 ^ 1024 - 2 ^ 970

theorem setting?_eq_ok_iff (hwidth : 0 < grid.width) (hheight : 0 < grid.height)
    {s : Setting Quantity} : c.setting? grid invert = .ok s ↔
      ∃ step pitch, Checked.div (.real c.layout.width) (Checked.ofWhole grid.width) = .ok step ∧
        Checked.div (.real c.layout.height) (Checked.ofWhole grid.height) = .ok pitch ∧
        Setting.of? (.whole c.laser.maxPower) (.whole c.laser.feedRate) step (some pitch) invert
          = .ok s := by
  have hpixels : ¬ (decide (grid.width = 0) || decide (grid.height = 0)) = true := by
    simp [hwidth.ne', hheight.ne']
  rw [setting?, Setting.forSize?, if_neg hpixels]
  rcases Checked.div (Quantity.real c.layout.width) (Checked.ofWhole grid.width) with e | step
  · exact iff_of_false (by rintro ⟨⟩) (by rintro ⟨_, _, ⟨⟩, -⟩)
  rcases Checked.div (Quantity.real c.layout.height) (Checked.ofWhole grid.height) with e | pitch
  · exact iff_of_false (by rintro ⟨⟩) (by rintro ⟨_, _, -, ⟨⟩, -⟩)
  · constructor
    · intro h
      exact ⟨step, pitch, rfl, rfl, h⟩
    · rintro ⟨_, _, ⟨⟩, ⟨⟩, h⟩
      exact h

theorem topOf?_eq {s : Setting Quantity} {y p : Float} (hy : wholeFloat? grid.height = .ok y)
    (hp : s.rowPitch = .real p) (startY : Float) :
    topOf? s grid (.real startY) = .ok (.real (startY + y * p - p)) := by
  have hmul : Checked.mul (Checked.ofWhole grid.height) (Quantity.real p) = .ok (.real (y * p)) :=
    bind_eq_ok_iff.mpr ⟨y, hy, rfl⟩
  rw [topOf?, hp, hmul]
  rfl

theorem IsFit.suits (hwidth : 0 < grid.width) (hheight : 0 < grid.height)
    (h : c.IsFit grid invert) : c.Suits grid := by
  obtain ⟨s, hs, hstep, hpitch, w, hw, hfinite⟩ := h
  obtain ⟨_, _, hcolumns, hrows, hof⟩ := (setting?_eq_ok_iff hwidth hheight).mp hs
  obtain ⟨x, hx, -, rfl⟩ := div_ofWhole_eq_ok_iff.mp hcolumns
  obtain ⟨y, hy, -, rfl⟩ := div_ofWhole_eq_ok_iff.mp hrows
  obtain ⟨-, hrate, hsetStep, hsetLine⟩ := Setting.eq_of_of? hof
  have hsetPitch : s.rowPitch = .real (c.layout.height / y) := by
    rw [Setting.rowPitch, hsetLine]
    rfl
  obtain ⟨p, hlines⟩ := exists_plan hw
  have hcoordinates : ∀ line ∈ p.lines, line.IsFinite := hlines ▸ hfinite
  have hcompile := exists_compile?_iff.mp ⟨w, hw⟩
  refine ⟨(isDivisible_iff hwidth).mpr ⟨x, hx, ?_⟩,
    (isDivisible_iff (by exact_mod_cast hheight)).mpr ⟨y, hy, ?_⟩, ?_, ?_, ?_⟩
  · simpa only [hsetStep, denotes_real_iff] using hstep
  · simpa only [hsetPitch, denotes_real_iff] using hpitch
  · obtain ⟨q, hq⟩ := Quantity.exists_denotes_of_fixed? p.left_eq (p.isFinite_left hcoordinates)
    exact ⟨q, denotes_real_iff.mp hq⟩
  · obtain ⟨top, htop, hprint⟩ := bind_eq_ok_iff.mp p.top_eq
    obtain ⟨q, hq⟩ := Quantity.exists_denotes_of_fixed? hprint (p.isFinite_top hcoordinates)
    rw [topOf?_eq hy hsetPitch] at htop
    rw [← Except.ok.inj htop, denotes_real_iff, eq_ofInt_of_wholeFloat? hy] at hq
    exact ⟨q, hq⟩
  · obtain ⟨rate, hfloat⟩ := Quantity.exists_toFloat?_of_canTime (hcompile.pixel hwidth hheight).2.2
    rw [hrate] at hfloat
    exact exists_wholeFloat?_iff.mp ⟨rate, hfloat⟩

theorem Suits.exists_setting? (hwidth : 0 < grid.width) (hheight : 0 < grid.height)
    (hrate : 0 < c.laser.feedRate) (h : c.Suits grid) (invert : Bool) :
    ∃ s x y, c.setting? grid invert = .ok s ∧ wholeFloat? grid.width = .ok x ∧
      wholeFloat? grid.height = .ok y ∧ s.maxPower = .whole c.laser.maxPower ∧
      s.feedRate = .whole c.laser.feedRate ∧ s.step = .real (c.layout.width / x) ∧
      s.rowPitch = .real (c.layout.height / y) := by
  obtain ⟨x, hx, _, hstep, hstepPos⟩ := (isDivisible_iff hwidth).mp h.width
  obtain ⟨y, hy, _, hpitch, hpitchPos⟩ := (isDivisible_iff (by exact_mod_cast hheight)).mp h.height
  have hnonzero {n : ℤ} (hn : 0 < n) {z : Float} (hz : wholeFloat? n = .ok z) : (z == 0) = false :=
    (denotes_of_wholeFloat? hz).beq_zero (zero_lt_one.trans_le (one_le_nearestBinary hn))
  have hfeed : Checked.isNonpositive (Quantity.whole c.laser.feedRate) = false :=
    decide_eq_false hrate.not_ge
  have hof : ∃ s, Setting.of? (.whole c.laser.maxPower) (Quantity.whole c.laser.feedRate)
      (.real (c.layout.width / x)) (some (.real (c.layout.height / y))) invert = .ok s := by
    rw [Setting.of?, dif_pos hfeed, dif_pos (isNonpositive_real hstep hstepPos)]
    simp only
    rw [dif_pos (isNonpositive_real hpitch hpitchPos)]
    exact ⟨_, rfl⟩
  obtain ⟨s, hs⟩ := hof
  obtain ⟨hsetPower, hsetRate, hsetStep, hsetLine⟩ := Setting.eq_of_of? hs
  refine ⟨s, x, y, (setting?_eq_ok_iff hwidth hheight).mpr ⟨_, _,
    div_ofWhole_eq_ok_iff.mpr ⟨x, hx, hnonzero hwidth hx, rfl⟩,
    div_ofWhole_eq_ok_iff.mpr ⟨y, hy, hnonzero (by exact_mod_cast hheight) hy, rfl⟩, hs⟩, hx, hy,
    hsetPower, hsetRate, hsetStep, ?_⟩
  rw [Setting.rowPitch, hsetLine]
  rfl

/-- What meets the conditions is fit to engrave with, if its laser is accepted. -/
theorem Suits.isFit (hwidth : 0 < grid.width) (hheight : 0 < grid.height)
    (hpower : 0 ≤ c.laser.maxPower ∧ c.laser.maxPower ≤ 100) (hrate : 0 < c.laser.feedRate)
    (h : c.Suits grid) (invert : Bool) : c.IsFit grid invert := by
  obtain ⟨s, x, y, hs, hx, hy, hsetPower, hsetRate, hsetStep, hsetPitch⟩ :=
    h.exists_setting? hwidth hheight hrate invert
  -- A quotient that is positive makes a step, and its value can be printed.
  have hpart {length z : Float} {n : ℤ} (hn : 0 < n) (hz : wholeFloat? n = .ok z)
      (hlength : IsDivisible length n) : ∃ q, (Quantity.real (length / z)).Denotes q ∧ 0 < q := by
    obtain ⟨z', hz', hq⟩ := (isDivisible_iff hn).mp hlength
    obtain rfl := Except.ok.inj (hz.symm.trans hz')
    simpa only [denotes_real_iff] using hq
  have hstep := hsetStep ▸ hpart hwidth hx h.width
  have hpitch := hsetPitch ▸ hpart (by exact_mod_cast hheight) hy h.height
  obtain ⟨rate, hfloat⟩ := exists_wholeFloat?_iff.mpr h.feedRate
  obtain ⟨left, hleft⟩ := h.left
  obtain ⟨top, htop⟩ := h.top
  -- A percentage has few digits.
  have hpercent : ∃ text, wholeText? c.laser.maxPower = .ok text := by
    refine exists_wholeText?_of_abs_le ?_
    have habs : |(c.laser.maxPower : ℚ)| ≤ 2 ^ 7 := by
      rw [abs_of_nonneg (by exact_mod_cast hpower.1)]
      exact le_trans (by exact_mod_cast hpower.2) (show (100 : ℚ) ≤ 2 ^ 7 by norm_num)
    exact habs.trans (pow_le_pow_right₀ one_le_two (by norm_num))
  have hsuits : s.Suits grid (.real c.layout.startX) (.real c.layout.startY) := {
    width := Setting.IsMeasured.exists_remark ⟨x, hx⟩ ⟨_, hsetStep⟩
    height := Setting.IsMeasured.exists_remark ⟨y, hy⟩ ⟨_, hsetPitch⟩
    maxPower := by rw [hsetPower]; exact hpercent
    feedRate := by rw [hsetRate]; exact exists_wholeText?_of_wholeFloat? hfloat
    rate := by rw [hsetRate]; exact ⟨_, rfl, hrate⟩
    left := ⟨left, denotes_real_iff.mpr hleft⟩
    top := by
      rw [Config.top, ← eq_ofInt_of_wholeFloat? hy] at htop
      exact ⟨_, top, topOf?_eq hy hsetPitch _, denotes_real_iff.mpr htop⟩
    pixel := fun _ _ ↦ ⟨by rw [hsetPower]; exact ⟨_, rfl⟩, hstep.imp fun _ ↦ And.left⟩
    descent := fun _ ↦ hpitch.imp fun _ ↦ And.left
    move := fun _ ↦ by
      rw [hsetRate]
      exact ⟨_, rate, hfloat, denotes_of_wholeFloat? hfloat⟩ }
  obtain ⟨w, hw⟩ := exists_compile?_iff.mpr hsuits.canCompile
  obtain ⟨p, hlines⟩ := exists_plan hw
  refine ⟨s, hs, hstep, hpitch, w, hw, ?_⟩
  intro line hline
  exact hsuits.isFinite_of_mem_lines p line (hlines ▸ hline)

/-- **When an accepted configuration is fit to engrave with.** -/
theorem isFit_iff {store : Store} {profile? : Option String} {document : Document}
    (h : ofDocument? store profile? document = .ok c) (hwidth : 0 < grid.width)
    (hheight : 0 < grid.height) (invert : Bool) : c.IsFit grid invert ↔ c.Suits grid := by
  obtain ⟨_, -, hlaser, -⟩ := ofDocument?_eq_ok_iff.mp h
  obtain ⟨_, _, -, hlaser⟩ := selectedLaser?_eq_ok_iff.mp hlaser
  obtain ⟨_, -, hgiven⟩ := Laser.ofDocument?_eq_ok_iff.mp hlaser
  constructor
  · intro hfit
    exact hfit.suits hwidth hheight
  · intro hsuits
    exact hsuits.isFit hwidth hheight hgiven.power_mem hgiven.feedRate_pos invert

/-- A document with a feed rate and with a width for engravings. -/
def sizedDocument (feedRate : ℤ) (width : Float) : Document := .mapping [
  (.text "laser", .mapping [
    (.text "max_power_percent", .whole 100), (.text "feed_rate_mm_min", .whole feedRate)]),
  (.text "engraving", .mapping [(.text "width_mm", .real width)])]

/-- A width that is no number is accepted, and so is a feed rate that is too large for a float. -/
theorem not_isFit_sizedDocument :
    (∃ c, ofDocument? #[] none (sizedDocument 1000 undefinedFloat) = .ok c ∧
      ¬ c.IsFit Grid.dot false) ∧
    ∃ c, ofDocument? #[] none (sizedDocument (10 ^ 400) 30) = .ok c ∧ ¬ c.IsFit Grid.dot false := by
  have hdot : 0 < Grid.dot.width ∧ 0 < Grid.dot.height := by decide
  constructor
  · have hresult : (match ofDocument? #[] none (sizedDocument 1000 undefinedFloat) with
        | .ok c => (Exact.ofFloat c.layout.width).isFinite
        | .error _ => true) = false := by decide +kernel
    rcases h : ofDocument? #[] none (sizedDocument 1000 undefinedFloat) with e | c
    · rw [h] at hresult
      cases hresult
    rw [h] at hresult
    refine ⟨c, rfl, ?_⟩
    rw [isFit_iff h hdot.1 hdot.2]
    intro hsuits
    obtain ⟨q, hq, -⟩ := hsuits.width.part
    have hfinite := isFinite_iff_denotes.mpr ⟨q, hq⟩
    exact Bool.noConfusion (hfinite.symm.trans hresult)
  · have hresult : (match ofDocument? #[] none (sizedDocument (10 ^ 400) 30) with
        | .ok c => decide (c.laser.feedRate = 10 ^ 400)
        | .error _ => false) = true := by decide +kernel
    rcases h : ofDocument? #[] none (sizedDocument (10 ^ 400) 30) with e | c
    · rw [h] at hresult
      cases hresult
    rw [h] at hresult
    refine ⟨c, rfl, ?_⟩
    rw [isFit_iff h hdot.1 hdot.2]
    intro hsuits
    have hsmall := hsuits.feedRate
    rw [of_decide_eq_true hresult] at hsmall
    refine absurd hsmall (not_lt.mpr ?_)
    have hlarge : (2 : ℚ) ^ 1024 ≤ 10 ^ 400 :=
      calc (2 : ℚ) ^ 1024 ≤ 2 ^ (3 * 400) := pow_le_pow_right₀ one_le_two (by norm_num)
        _ = 8 ^ 400 := by rw [pow_mul]; norm_num
        _ ≤ 10 ^ 400 := pow_le_pow_left₀ (by norm_num) (by norm_num) 400
    rw [Int.cast_pow, abs_of_pos (by positivity)]
    exact (sub_le_self _ (by positivity)).trans hlarge

end Config

end Engraving
