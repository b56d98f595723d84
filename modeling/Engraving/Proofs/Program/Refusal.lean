import Engraving.Proofs.Program.Completion

/-!
# Why a program is not finished

A setting that comes from a job has lengths that were measured and rates that are integers. Then
little can go wrong: the greatest power or the feed rate has too many digits to be written in the
header, or the feed rate has so many that it is no float, and the first move cannot be timed. The
three cases exclude each other, and the grid and the lengths leave no others.
-/

namespace Engraving

namespace Compiler

variable {β γ : Type}

/-- From measured sums `c` stops halfway, for the reason `e`. -/
def StopsWith (c : Compiler Quantity β) (e : NumberError) : Prop :=
  ∀ w, w.IsMeasured → ∃ w', c.run.run w = (.error e, w')

namespace StopsWith

variable {c : Compiler Quantity β} {f : β → Compiler Quantity γ} {e : NumberError} {P : Prop}

theorem bind_left (h : StopsWith c e) : StopsWith (c >>= f) e := by
  intro w hw
  obtain ⟨w', hrun⟩ := h w hw
  exact ⟨w', by rw [run_bind, hrun]⟩

/-- What follows an action that runs to its end is reached. -/
theorem bind (hc : FinishesWhen c P) (hP : P) (hf : ∀ b, StopsWith (f b) e) :
    StopsWith (c >>= f) e := by
  intro w hw
  have hfirst := hc w hw
  rw [run_bind]
  rcases hrun : c.run.run w with ⟨_ | b, v⟩
  · rw [hrun] at hfirst
    exact absurd hP hfirst
  · rw [hrun] at hfirst
    exact hf b v hfirst.2

theorem lift_bind {r : Except NumberError β} {b : β} (h : r = .ok b) (hf : StopsWith (f b) e) :
    StopsWith ((liftM r : Compiler Quantity β) >>= f) e := by
  rw [h]
  exact hf

theorem lift_bind_of_error {r : Except NumberError β} (h : r = .error e) :
    StopsWith ((liftM r : Compiler Quantity β) >>= f) e := by
  rw [h]
  exact fun w _ ↦ ⟨w, rfl⟩

theorem emit_bind {line : ProgramLine} {f : Unit → Compiler Quantity γ} (h : StopsWith (f ()) e) :
    StopsWith (Compiler.emit line >>= f) e := fun w hw ↦
  h { w with lines := w.lines.push line } hw

theorem get_bind {f : Workpiece Quantity → Compiler Quantity γ}
    (h : ∀ w, w.IsMeasured → StopsWith (f w) e) : StopsWith (get >>= f) e :=
  fun w hw ↦ h w hw w hw

/-- A program is not finished when what is written after the reset stops. -/
theorem compile? {s : Setting Quantity} {grid : Grid} {startX startY : Quantity}
    (h : StopsWith (header s grid >>= fun _ ↦ preamble s grid startX startY >>= fun _ ↦
      rows s 0 true grid.rows >>= fun _ ↦ footer) e) :
    Engraving.compile? s grid startX startY = .error e := by
  obtain ⟨w', hrun⟩ := bind finishesWhen_reset trivial (fun _ ↦ h) .blank Workpiece.isMeasured_blank
  have hcompile : (compile s grid startX startY).run.run .blank = (.error e, w') := hrun
  rw [Engraving.compile?, hcompile]

end StopsWith

/-- A move at a feed rate that is no float stops the writing, after its length was added. -/
theorem stopsWith_travel {feedRate length : Quantity} {e : NumberError}
    (hfeed : feedRate.isNonpositive = false) (hlength : length.isNonpositive = false)
    (hfloat : ∃ x, length = .real x) (hrate : feedRate.toFloat? = .error e) :
    StopsWith (travel feedRate length) e := by
  have hguard : ¬ (Checked.isNonpositive length || Checked.isNonpositive feedRate) = true := by
    rw [Bool.not_eq_true, Bool.or_eq_false_iff]
    exact ⟨hlength, hfeed⟩
  have htime : Quantity.div feedRate (.real 60) = .error e := by
    rw [Quantity.div_real, hrate]
    rfl
  rw [travel, if_neg hguard]
  refine .get_bind fun w hw ↦ ?_
  obtain ⟨distance, _, hdistance, -⟩ := hw
  obtain ⟨l, rfl⟩ := hfloat
  rw [hdistance]
  refine .lift_bind (b := .real (distance + l)) rfl ?_
  refine .bind (.of_modify fun w hw ↦ ?_) trivial fun _ ↦ .lift_bind_of_error htime
  obtain ⟨_, elapsed, -, helapsed⟩ := hw
  exact ⟨distance + l, elapsed, rfl, helapsed⟩

end Compiler

/-! ## Settings of jobs -/

/-- A setting with integers for its rates, whose lengths were measured on a grid with pixels. -/
structure Setting.IsMeasured (s : Setting Quantity) (grid : Grid) (maxPower feedRate : ℤ) :
    Prop where
  maxPower : s.maxPower = .whole maxPower
  feedRate : s.feedRate = .whole feedRate
  step : ∃ x, s.step = .real x
  rowPitch : ∃ x, s.rowPitch = .real x
  width_pos : 0 < grid.width
  height_pos : 0 < grid.height
  width : ∃ x, wholeFloat? grid.width = .ok x
  height : ∃ x, wholeFloat? grid.height = .ok x

namespace Setting.IsMeasured

variable {s : Setting Quantity} {grid : Grid} {maxPower feedRate : ℤ} {x y : Float}

theorem feedRate_pos (h : s.IsMeasured grid maxPower feedRate) : 0 < feedRate := by
  have hpos := s.feedRate_positive
  rw [h.feedRate] at hpos
  exact not_le.mp (of_decide_eq_false hpos)

theorem exists_mul {n : ℤ} {length : Quantity} (hn : ∃ x, wholeFloat? n = .ok x)
    (hlength : ∃ x, length = .real x) :
    ∃ x, Checked.mul (Checked.ofWhole n) length = .ok (.real x) := by
  obtain ⟨f, hf⟩ := hn
  obtain ⟨l, rfl⟩ := hlength
  exact ⟨f * l, bind_eq_ok_iff.mpr ⟨f, hf, rfl⟩⟩

theorem exists_remark {n : ℤ} {length : Quantity} (hn : ∃ x, wholeFloat? n = .ok x)
    (hlength : ∃ x, length = .real x) :
    ∃ d, (Checked.mul (Checked.ofWhole n) length >>= Checked.fixed? 2) = .ok d := by
  obtain ⟨x, hx⟩ := exists_mul hn hlength
  rw [hx]
  exact ⟨_, rfl⟩

theorem canTravel_iff (h : s.IsMeasured grid maxPower feedRate) {length : Quantity}
    (hlength : ∃ x, length = .real x) :
    s.feedRate.CanTravel length ↔ ∃ rate, wholeFloat? feedRate = .ok rate := by
  obtain ⟨l, rfl⟩ := hlength
  rw [h.feedRate, Quantity.canTravel_iff rfl h.feedRate_pos]
  exact and_iff_right ⟨l, rfl⟩

theorem exists_top (h : s.IsMeasured grid maxPower feedRate) (y : Float) :
    ∃ d, (topOf? s grid (.real y) >>= Checked.fixed? 3) = .ok d := by
  obtain ⟨height, hheight⟩ := exists_mul h.height h.rowPitch
  obtain ⟨pitch, hpitch⟩ := h.rowPitch
  rw [topOf?, hheight, hpitch]
  exact ⟨_, rfl⟩

theorem canCompile_iff (h : s.IsMeasured grid maxPower feedRate) :
    s.CanCompile grid (.real x) (.real y) ↔ (∃ text, wholeText? maxPower = .ok text) ∧
      (∃ text, wholeText? feedRate = .ok text) ∧ ∃ rate, wholeFloat? feedRate = .ok rate := by
  constructor
  · intro hcompile
    have hpower := hcompile.maxPower
    have hrate := hcompile.feedRate
    rw [h.maxPower] at hpower
    rw [h.feedRate] at hrate
    exact ⟨hpower, hrate, (h.canTravel_iff h.step).mp (hcompile.pixel h.width_pos h.height_pos).2⟩
  · rintro ⟨hpower, hrate, hfloat⟩
    exact {
      width := exists_remark h.width h.step
      height := exists_remark h.height h.rowPitch
      maxPower := by rw [h.maxPower]; exact hpower
      feedRate := by rw [h.feedRate]; exact hrate
      rate := by rw [h.feedRate]; exact ⟨_, rfl⟩
      left := ⟨_, rfl⟩
      top := h.exists_top y
      pixel := fun _ _ ↦ ⟨by rw [h.maxPower]; exact ⟨_, rfl⟩, (h.canTravel_iff h.step).mpr hfloat⟩
      descent := fun _ ↦ (h.canTravel_iff h.rowPitch).mpr hfloat }

theorem stopsWith_header (h : s.IsMeasured grid maxPower feedRate)
    {e : NumberError} (hlong : wholeText? maxPower = .error e ∨ wholeText? feedRate = .error e) :
    Compiler.StopsWith (Compiler.header s grid) e := by
  obtain ⟨width, hwidth⟩ := exists_mul h.width h.step
  obtain ⟨height, hheight⟩ := exists_mul h.height h.rowPitch
  obtain ⟨columns, hcolumns⟩ := h.width
  refine .lift_bind hwidth (.lift_bind hheight (.emit_bind ?_))
  refine .bind (Compiler.FinishesWhen.emitWhole _ _) (exists_wholeText?_of_wholeFloat? hcolumns)
    fun _ ↦ .lift_bind rfl (.lift_bind rfl (.emit_bind ?_))
  rcases hpower : wholeText? maxPower with long | text
  · have hlong : long = e := by
      rw [wholeText?_eq_error hpower]
      exact (hlong.elim wholeText?_eq_error wholeText?_eq_error).symm
    exact .lift_bind_of_error (by rw [h.maxPower, ← hlong]; exact hpower)
  · refine .lift_bind (b := text) (by rw [h.maxPower]; exact hpower) (.lift_bind_of_error ?_)
    rw [h.feedRate]
    exact hlong.resolve_left (by rw [hpower]; rintro ⟨⟩)

theorem stopsWith_rows (h : s.IsMeasured grid maxPower feedRate) {e : NumberError}
    (hlarge : wholeFloat? feedRate = .error e) :
    Compiler.StopsWith (Compiler.rows s 0 true grid.rows) e := by
  have hlength : 0 < grid.rows.length := h.height_pos
  obtain ⟨grays, rest, hrows⟩ := List.exists_cons_of_length_pos hlength
  have hne : grays ≠ [] := by
    rintro rfl
    have hwidth := grid.uniform [] (by rw [hrows]; exact List.mem_cons_self)
    exact h.width_pos.ne hwidth
  obtain ⟨powers, hpowers⟩ : ∃ powers, powers? s.maxPower s.invert grays = .ok powers := by
    rw [Compiler.exists_powers?_eq_ok_iff, h.maxPower]
    exact fun _ ↦ ⟨maxPower, rfl⟩
  have htexts := Compiler.exists_wholeText?_of_mem_powers hpowers
  rw [hrows]
  refine .emit_bind (.lift_bind hpowers (.bind_left ?_))
  rcases powers with _ | ⟨power, powers⟩
  · exact absurd (List.forall₂_nil_right_iff.mp (mapM_eq_ok_iff.mp hpowers)) hne
  obtain ⟨step, hstep⟩ := h.step
  refine .bind_left (.lift_bind (b := FixedPoint.ofFloat 3 step) ?_ ?_)
  · rw [if_pos rfl, hstep]
    rfl
  · refine .bind (Compiler.FinishesWhen.emitWhole _ _) (htexts power List.mem_cons_self) fun _ ↦ ?_
    refine Compiler.stopsWith_travel s.feedRate_positive s.step_positive h.step ?_
    rw [h.feedRate]
    exact hlarge

theorem compile?_eq_error_of_header (h : s.IsMeasured grid maxPower feedRate) {e : NumberError}
    (hlong : wholeText? maxPower = .error e ∨ wholeText? feedRate = .error e) :
    compile? s grid (.real x) (.real y) = .error e :=
  Compiler.StopsWith.compile? (.bind_left (h.stopsWith_header hlong))

theorem compile?_eq_error_of_rows (h : s.IsMeasured grid maxPower feedRate) {e : NumberError}
    (hpower : ∃ text, wholeText? maxPower = .ok text)
    (hrate : ∃ text, wholeText? feedRate = .ok text) (hlarge : wholeFloat? feedRate = .error e) :
    compile? s grid (.real x) (.real y) = .error e := by
  refine Compiler.StopsWith.compile? ?_
  refine .bind (Compiler.finishesWhen_header s grid) ?_ fun _ ↦
    .bind (Compiler.finishesWhen_preamble s grid _ _) ?_ fun _ ↦
      .bind_left (h.stopsWith_rows hlarge)
  · obtain ⟨columns, hcolumns⟩ := h.width
    refine ⟨exists_wholeText?_of_wholeFloat? hcolumns, exists_remark h.width h.step,
      exists_remark h.height h.rowPitch, ?_, ?_⟩
    · rw [h.maxPower]
      exact hpower
    · rw [h.feedRate]
      exact hrate
  · refine ⟨⟨feedRate, by rw [h.feedRate]; rfl, hrate⟩, ⟨_, rfl⟩, h.exists_top y⟩

/-- **Why a program is not finished.** -/
theorem compile?_eq_error_iff (h : s.IsMeasured grid maxPower feedRate) {e : NumberError} :
    compile? s grid (.real x) (.real y) = .error e ↔
      (wholeText? maxPower = .error e ∨ wholeText? feedRate = .error e) ∨
      ((∃ text, wholeText? maxPower = .ok text) ∧ (∃ text, wholeText? feedRate = .ok text) ∧
        wholeFloat? feedRate = .error e) := by
  rcases hpower : wholeText? maxPower with long | power
  · rw [h.compile?_eq_error_of_header (Or.inl hpower)]
    simpa using fun hrate ↦ (wholeText?_eq_error hpower).trans (wholeText?_eq_error hrate).symm
  rcases hrate : wholeText? feedRate with long | rate
  · rw [h.compile?_eq_error_of_header (Or.inr hrate)]
    simp
  rcases hfloat : wholeFloat? feedRate with large | f
  · rw [h.compile?_eq_error_of_rows ⟨power, hpower⟩ ⟨rate, hrate⟩ hfloat]
    simp
  · obtain ⟨w, hw⟩ := exists_compile?_iff.mpr
      (h.canCompile_iff (x := x) (y := y) |>.mpr ⟨⟨power, hpower⟩, ⟨rate, hrate⟩, f, hfloat⟩)
    rw [hw]
    simp

end Setting.IsMeasured

/-! ## Settings from sizes -/

/-- A float is divided by every count, if it is not zero. -/
theorem exists_div_ofWhole {n : ℕ} (hpos : 0 < n) (hle : n ≤ 2 ^ 53) (x : Float) :
    ∃ y, Checked.div (Quantity.real x) (Checked.ofWhole n) = .ok (Quantity.real y) := by
  refine ⟨x / Float.ofNat n, ?_⟩
  change (wholeFloat? n >>= fun y ↦
    if y == 0 then Except.error NumberError.divisionByZero else .ok (Quantity.real (x / y))) = _
  rw [wholeFloat?_natCast hle]
  change (if Float.ofNat n == 0 then _ else _) = _
  rw [(denotes_ofNat hle).beq_zero (by exact_mod_cast hpos)]
  rfl

namespace Setting

section

variable {power rate step : Quantity} {lineStep? : Option Quantity} {invert : Bool}

theorem eq_of_of? {s : Setting Quantity} (h : of? power rate step lineStep? invert = .ok s) :
    s.maxPower = power ∧ s.feedRate = rate ∧ s.step = step ∧ s.lineStep? = lineStep? := by
  rw [of?] at h
  split_ifs at h
  rcases lineStep? with _ | _
  · cases h
    exact ⟨rfl, rfl, rfl, rfl⟩
  · simp only at h
    split_ifs at h
    cases h
    exact ⟨rfl, rfl, rfl, rfl⟩

theorem of?_ne_number (e : NumberError) :
    of? power rate step lineStep? invert ≠ .error (.number e) := by
  rw [of?]
  split_ifs
  · rcases lineStep? with _ | _
    · rintro ⟨⟩
    · simp only
      split_ifs <;> rintro ⟨⟩
  · rintro ⟨⟩
  · rintro ⟨⟩

end

variable {grid : Grid} {width height : Float} {maxPower feedRate : ℤ} {invert : Bool}

theorem exists_forSize?_eq (hsize : grid.width * grid.height ≤ 2 ^ 53) (hwidth : grid.width ≠ 0)
    (hheight : grid.height ≠ 0) (width height : Float) (maxPower feedRate : ℤ) (invert : Bool) :
    (∃ x, wholeFloat? grid.width = .ok x) ∧ (∃ x, wholeFloat? grid.height = .ok x) ∧
      ∃ step pitch, forSize? grid (Quantity.real width) (Quantity.real height) (.whole maxPower)
          (Quantity.whole feedRate) invert
        = of? (.whole maxPower) (.whole feedRate) (Quantity.real step) (some (Quantity.real pitch))
          invert := by
  have hpos := Grid.width_pos hwidth hheight
  obtain ⟨columns, hcolumns⟩ := Int.eq_ofNat_of_zero_le hpos.le
  have hrows : 0 < grid.height := Nat.pos_of_ne_zero hheight
  rw [hcolumns] at hsize hpos ⊢
  have hproduct : columns * grid.height ≤ 2 ^ 53 := by exact_mod_cast hsize
  have hcount : 0 < columns := by exact_mod_cast hpos
  have hcolumnsLe : columns ≤ 2 ^ 53 := (Nat.le_mul_of_pos_right _ hrows).trans hproduct
  have hrowsLe : grid.height ≤ 2 ^ 53 := (Nat.le_mul_of_pos_left _ hcount).trans hproduct
  obtain ⟨step, hstep⟩ := exists_div_ofWhole hcount hcolumnsLe width
  obtain ⟨pitch, hpitch⟩ := exists_div_ofWhole hrows hrowsLe height
  refine ⟨⟨_, wholeFloat?_natCast hcolumnsLe⟩, ⟨_, wholeFloat?_natCast hrowsLe⟩, step, pitch, ?_⟩
  have hpixels : ¬ (decide (grid.width = 0) || decide (grid.height = 0)) = true := by
    simp [hwidth, hheight]
  rw [forSize?, if_neg hpixels, hcolumns, hstep, hpitch]

theorem isMeasured_of_forSize? {s : Setting Quantity}
    (hsize : grid.width * grid.height ≤ 2 ^ 53)
    (h : forSize? grid (Quantity.real width) (Quantity.real height) (.whole maxPower)
      (Quantity.whole feedRate) invert = .ok s) : s.IsMeasured grid maxPower feedRate := by
  have hpixels : grid.width ≠ 0 ∧ grid.height ≠ 0 := by
    rw [forSize?] at h
    split at h
    · cases h
    · next hne => simpa using hne
  obtain ⟨hwidth, hheight, step, pitch, heq⟩ :=
    exists_forSize?_eq hsize hpixels.1 hpixels.2 width height maxPower feedRate invert
  obtain ⟨hpower, hrate, hstep, hline⟩ := eq_of_of? (heq ▸ h)
  exact {
    maxPower := hpower
    feedRate := hrate
    step := ⟨step, hstep⟩
    rowPitch := ⟨pitch, by rw [rowPitch, hline]; rfl⟩
    width_pos := Grid.width_pos hpixels.1 hpixels.2
    height_pos := Nat.pos_of_ne_zero hpixels.2
    width := hwidth
    height := hheight }

/-- On a grid of a size that is a float, no number is in the way of a setting. -/
theorem forSize?_ne_number (hsize : grid.width * grid.height ≤ 2 ^ 53) (e : NumberError) :
    forSize? grid (Quantity.real width) (Quantity.real height) (.whole maxPower)
      (Quantity.whole feedRate) invert ≠ .error (.number e) := by
  by_cases hpixels : grid.width = 0 ∨ grid.height = 0
  · rw [forSize?, if_pos (by simpa using hpixels)]
    rintro ⟨⟩
  · rw [not_or] at hpixels
    obtain ⟨-, -, step, pitch, heq⟩ :=
      exists_forSize?_eq hsize hpixels.1 hpixels.2 width height maxPower feedRate invert
    rw [heq]
    exact of?_ne_number e

end Setting

end Engraving
