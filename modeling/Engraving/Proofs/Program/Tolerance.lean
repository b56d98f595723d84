import Engraving.Program.Job
import Engraving.Proofs.Program.Raster

/-!
# How closely a program traces the intended raster

A raster is intended by the size of an engraving and the place of its lower left corner, and the
program of the engraving scans another one, which the printed numbers span. Along a row the two
drift apart by the same amount with every pixel, the difference of the two steps, and down the rows
by the difference of the two pitches. So the strokes stay within a tolerance everywhere exactly
when they do at two opposite corners, and there is no bound for all engravings: the printed step
has three places, whatever the count of pixels that it is multiplied with.
-/

namespace Engraving

/-! ## Being near -/

/-- The two places are no further apart than `t`, along either axis. -/
def Point.Near (t : ℚ) (p q : Point ℚ) : Prop := |p.x - q.x| ≤ t ∧ |p.y - q.y| ≤ t

/-- The two strokes begin and end no further apart than `t`. -/
structure Stroke.Near (t : ℚ) (a b : Stroke) : Prop where
  start : a.start.Near t b.start
  finish : a.finish.Near t b.finish

theorem forall₂_append_iff {δ : Type} {R : δ → δ → Prop} {first first' rest rest' : List δ}
    (h : first.length = first'.length) : List.Forall₂ R (first ++ rest) (first' ++ rest') ↔
      List.Forall₂ R first first' ∧ List.Forall₂ R rest rest' := by
  refine ⟨fun hall ↦ ?_, fun ⟨hfirst, hrest⟩ ↦ List.rel_append hfirst hrest⟩
  have hfirst := List.forall₂_take_append _ _ _ hall
  have hrest := List.forall₂_drop_append _ _ _ hall
  rw [← h, List.take_left] at hfirst
  rw [← h, List.drop_left] at hrest
  exact ⟨hfirst, hrest⟩

namespace Raster

variable {r m : Raster} {t : ℚ} {x y columns : ℕ}

theorem near_burn_iff {power power' : ℚ} :
    (r.burn y x power).Near t (m.burn y x power') ↔
      (r.corner x y).Near t (m.corner x y) ∧ (r.corner (x + 1) y).Near t (m.corner (x + 1) y) := by
  rw [burn, burn]
  split
  · exact ⟨fun h ↦ ⟨h.start, h.finish⟩, fun h ↦ ⟨h.1, h.2⟩⟩
  · exact ⟨fun h ↦ ⟨h.finish, h.start⟩, fun h ↦ ⟨h.2, h.1⟩⟩

/-- Rows are near exactly when all edges of their pixels are. -/
theorem forall₂_row_iff {powers powers' : List ℚ} (h : powers.length = columns)
    (h' : powers'.length = columns) (hpos : 0 < columns) :
    List.Forall₂ (Stroke.Near t) (r.row y powers) (m.row y powers') ↔
      ∀ x ≤ columns, (r.corner x y).Near t (m.corner x y) := by
  have hforth : List.Forall₂ (Stroke.Near t) (r.row y powers) (m.row y powers') ↔
      List.Forall₂ (Stroke.Near t) (powers.mapIdx (r.burn y)) (powers'.mapIdx (m.burn y)) := by
    rw [row, row]
    split
    · rfl
    · rw [List.forall₂_reverse_iff]
  rw [hforth, List.forall₂_iff_get]
  simp only [List.length_mapIdx, List.get_eq_getElem, List.getElem_mapIdx, near_burn_iff, h, h']
  -- Every edge but the last is where a pixel begins, and the last is where one ends.
  constructor
  · rintro ⟨-, hnear⟩ x hx
    rcases Nat.lt_or_eq_of_le hx with hlt | rfl
    · exact (hnear x hlt hlt).1
    · obtain ⟨k, rfl⟩ := Nat.exists_eq_succ_of_ne_zero hpos.ne'
      exact (hnear k k.lt_succ_self k.lt_succ_self).2
  · exact fun hnear ↦ ⟨trivial, fun x hx _ ↦ ⟨hnear x hx.le, hnear (x + 1) hx⟩⟩

theorem near_descent (hrow : ∀ x ≤ columns, (r.corner x y).Near t (m.corner x y))
    (hnext : ∀ x ≤ columns, (r.corner x (y + 1)).Near t (m.corner x (y + 1))) :
    (r.descent columns y).Near t (m.descent columns y) := by
  rw [descent, descent, rowEnd, rowEnd]
  split
  · exact ⟨hrow columns le_rfl, hnext columns le_rfl⟩
  · exact ⟨hrow 0 columns.zero_le, hnext 0 columns.zero_le⟩

theorem length_row (r : Raster) (y : ℕ) (powers : List ℚ) :
    (r.row y powers).length = powers.length := by
  rw [row]
  split <;> simp

/-- Scans are near exactly when all edges of all pixels are. -/
theorem forall₂_scan_iff {powers powers' : List (List ℚ)} (hpos : 0 < columns)
    (hshape : List.Forall₂ (fun row row' ↦ row.length = columns ∧ row'.length = columns)
      powers powers') (y : ℕ) :
    List.Forall₂ (Stroke.Near t) (r.scan y powers) (m.scan y powers') ↔
      ∀ j < powers.length, ∀ x ≤ columns,
        (r.corner x (y + j)).Near t (m.corner x (y + j)) := by
  induction hshape generalizing y with
  | nil => simp [scan]
  | @cons row row' later later' hrow hlater ih =>
    have hlength : (r.row y row).length = (m.row y row').length := by
      rw [length_row, length_row, hrow.1, hrow.2]
    have hrest := ih (y + 1)
    simp only [Nat.add_assoc, Nat.add_comm 1] at hrest
    rw [scan, scan, forall₂_append_iff hlength, forall₂_row_iff hrow.1 hrow.2 hpos,
      List.length_cons, Nat.forall_lt_succ_left, ← hrest, Nat.add_zero]
    -- A descent joins two corners that are near already, and asks for nothing more.
    refine and_congr_right fun hnear ↦ ?_
    cases hlater with
    | nil => rfl
    | cons hnext hlater =>
      rw [hrow.1, hrow.2]
      refine ⟨fun h ↦ (List.forall₂_cons.mp h).2, fun h ↦ List.forall₂_cons.mpr ⟨?_, h⟩⟩
      exact near_descent hnear (hrest.mp h 0 (Nat.succ_pos _))

theorem abs_add_mul_le {a b n x : ℚ} (hzero : |a| ≤ t) (hend : |a + n * b| ≤ t) (hx : 0 ≤ x)
    (hxn : x ≤ n) : |a + x * b| ≤ t := by
  obtain ⟨hzero_low, hzero_high⟩ := abs_le.mp hzero
  obtain ⟨hend_low, hend_high⟩ := abs_le.mp hend
  rw [abs_le]
  rcases le_total 0 b with hb | hb
  · have hlow : 0 ≤ x * b := mul_nonneg hx hb
    have hhigh : x * b ≤ n * b := mul_le_mul_of_nonneg_right hxn hb
    constructor <;> linarith
  · have hlow : n * b ≤ x * b := mul_le_mul_of_nonpos_right hxn hb
    have hhigh : x * b ≤ 0 := mul_nonpos_of_nonneg_of_nonpos hx hb
    constructor <;> linarith

theorem near_corner_iff : (r.corner x y).Near t (m.corner x y) ↔
    |(r.left - m.left) + x * (r.step - m.step)| ≤ t ∧
      |(r.top - m.top) + y * (m.pitch - r.pitch)| ≤ t := by
  have hx : (r.corner x y).x - (m.corner x y).x
      = (r.left - m.left) + x * (r.step - m.step) := by
    rw [corner, corner]
    ring
  have hy : (r.corner x y).y - (m.corner x y).y
      = (r.top - m.top) + y * (m.pitch - r.pitch) := by
    rw [corner, corner]
    ring
  rw [Point.Near, hx, hy]

theorem forall_near_corner_iff {last : ℕ} :
    (∀ y < last + 1, ∀ x ≤ columns, (r.corner x y).Near t (m.corner x y)) ↔
      (r.corner 0 0).Near t (m.corner 0 0) ∧
        (r.corner columns last).Near t (m.corner columns last) := by
  refine ⟨fun h ↦ ⟨h 0 last.succ_pos 0 columns.zero_le, h last last.lt_succ_self columns le_rfl⟩,
    fun ⟨hfirst, hlast⟩ y hy x hx ↦ ?_⟩
  rw [near_corner_iff] at hfirst hlast ⊢
  rw [Nat.cast_zero, zero_mul, zero_mul, add_zero, add_zero] at hfirst
  refine ⟨abs_add_mul_le hfirst.1 hlast.1 x.cast_nonneg ?_,
    abs_add_mul_le hfirst.2 hlast.2 y.cast_nonneg ?_⟩
  · exact_mod_cast hx
  · exact_mod_cast Nat.le_of_lt_succ hy

end Raster

/-! ## The intended raster -/

/-- The exact value of a quantity that has one. -/
def Quantity.value : Quantity → ℚ
  | whole n => n
  | real x => (Exact.ofFloat x).toRat?.getD 0

/-- The raster that a job intends, of its size and with its lower left corner. -/
def Job.raster (job : Job) (grid : Grid) : Raster where
  left := job.startX.value
  top := job.startY.value + (grid.height - 1) * (job.height.value / grid.height)
  step := job.width.value / grid.width
  pitch := job.height.value / grid.height

/-- All coordinates of a program are decimals, and read as such they lead along the scan of a
raster, with each stroke within `t` of where it is meant. -/
def Workpiece.Traces (w : Workpiece Quantity) (t : ℚ) (meant : Raster) (grid : Grid) : Prop :=
  w.HasFiniteCoordinates ∧ List.Forall₂ (Stroke.Near t) (exactReplay w.texts)
    (meant.scan 0 (grid.rows.map (·.map fun _ ↦ 0)))

theorem Job.pos_of_setting? {job : Job} {grid : Grid} {s : Setting Quantity}
    (h : job.setting? grid = .ok s) : 0 < grid.width ∧ 0 < grid.height := by
  rw [setting?, Setting.forSize?] at h
  split at h
  · cases h
  · next hne =>
    simp only [Bool.or_eq_true, decide_eq_true_eq, not_or] at hne
    exact ⟨Grid.width_pos hne.1 hne.2, Nat.pos_of_ne_zero hne.2⟩

/-- The scan of a plan is near the intended one exactly when it is at two opposite corners. -/
theorem Plan.forall₂_near_iff {s : Setting Quantity} {grid : Grid} {startX startY : Quantity}
    (p : Plan s grid startX startY) (hwidth : 0 < grid.width) (hheight : 0 < grid.height)
    {r m : Raster} (hr : r.IsPrinted s grid p.lines) (t : ℚ) :
    List.Forall₂ (Stroke.Near t) (exactReplay (p.lines.map ProgramLine.text))
        (m.scan 0 (grid.rows.map (·.map fun _ ↦ 0))) ↔
      (r.corner 0 0).Near t (m.corner 0 0) ∧
        (r.corner grid.width.toNat (grid.height - 1)).Near t
          (m.corner grid.width.toNat (grid.height - 1)) := by
  have hshape : List.Forall₂
      (fun row row' : List ℚ ↦ row.length = grid.width.toNat ∧ row'.length = grid.width.toNat)
      (p.powers.map (·.map Nat.cast)) (grid.rows.map (·.map fun _ ↦ 0)) := by
    have hrows : List.Forall₂ (fun grays powers ↦ (grays.length : ℤ) = grid.width ∧
        powers? s.maxPower s.invert grays = .ok powers) grid.rows p.powers :=
      (List.forall₂_and_left _ _).mpr ⟨grid.uniform, p.forall₂_powers⟩
    rw [List.forall₂_map_left_iff, List.forall₂_map_right_iff]
    refine hrows.flip.imp fun powers grays ⟨hgrays, hpowers⟩ ↦ ?_
    have hlength := (mapM_eq_ok_iff.mp hpowers).length_eq
    rw [List.length_map, List.length_map]
    omega
  have hlast : (p.powers.map (·.map (Nat.cast : ℕ → ℚ))).length = grid.height - 1 + 1 := by
    rw [List.length_map, p.length_powers]
    omega
  rw [p.exactReplay_of_isPrinted hr, Raster.forall₂_scan_iff (by omega) hshape, hlast]
  simp only [Nat.zero_add]
  exact Raster.forall_near_corner_iff

theorem Job.near_corners_iff (job : Job) {grid : Grid} (hwidth : 0 < grid.width)
    (hheight : 0 < grid.height) {r : Raster} {t : ℚ} :
    (r.corner 0 0).Near t ((job.raster grid).corner 0 0) ∧
        (r.corner grid.width.toNat (grid.height - 1)).Near t
          ((job.raster grid).corner grid.width.toNat (grid.height - 1)) ↔
      |r.left - job.startX.value| ≤ t ∧
        |r.left + grid.width * r.step - (job.startX.value + job.width.value)| ≤ t ∧
        |r.top - (job.startY.value + (grid.height - 1) * (job.height.value / grid.height))| ≤ t ∧
        |r.top - (grid.height - 1) * r.pitch - job.startY.value| ≤ t := by
  have hcolumns : (grid.width.toNat : ℚ) = grid.width := by
    exact_mod_cast Int.toNat_of_nonneg hwidth.le
  have hrows : ((grid.height - 1 : ℕ) : ℚ) = grid.height - 1 := by
    rw [Nat.cast_sub hheight, Nat.cast_one]
  have hwidth' : (grid.width : ℚ) ≠ 0 := by exact_mod_cast hwidth.ne'
  -- The last edge of the intended raster is the whole width away from the first.
  have hright : r.left - job.startX.value
        + grid.width * (r.step - job.width.value / grid.width)
      = r.left + grid.width * r.step - (job.startX.value + job.width.value) := by
    field_simp
    ring
  have hbottom : r.top - (job.startY.value + (grid.height - 1) * (job.height.value / grid.height))
        + (grid.height - 1) * (job.height.value / grid.height - r.pitch)
      = r.top - (grid.height - 1) * r.pitch - job.startY.value := by
    ring
  rw [Raster.near_corner_iff, Raster.near_corner_iff, hcolumns, hrows]
  simp only [raster, hright, hbottom, Nat.cast_zero, zero_mul, add_zero]
  tauto

/-- **When a program traces the raster it is meant to trace.** The program of a job stays within a
tolerance of the intended raster exactly when its coordinates are decimals and the raster that they
span is within the tolerance at the left and the right edge, and on the first and the last row. -/
theorem traces_iff {job : Job} {grid : Grid} {s : Setting Quantity} {w : Workpiece Quantity}
    (hs : job.setting? grid = .ok s) (hw : compile? s grid job.startX job.startY = .ok w) (t : ℚ) :
    w.Traces t (job.raster grid) grid ↔
      w.HasFiniteCoordinates ∧ ∃ r : Raster, r.IsPrinted s grid w.lines.toList ∧
        |r.left - job.startX.value| ≤ t ∧
        |r.left + grid.width * r.step - (job.startX.value + job.width.value)| ≤ t ∧
        |r.top - (job.startY.value + (grid.height - 1) * (job.height.value / grid.height))| ≤ t ∧
        |r.top - (grid.height - 1) * r.pitch - job.startY.value| ≤ t := by
  obtain ⟨hwidth, hheight⟩ := Job.pos_of_setting? hs
  obtain ⟨p, hlines⟩ := exists_plan hw
  rw [Workpiece.Traces, Workpiece.texts, hlines]
  refine and_congr_right fun hfinite ↦ ?_
  obtain ⟨r, hr⟩ := p.exists_isPrinted (hlines ▸ hfinite)
  constructor
  · intro hall
    have hnear := (p.forall₂_near_iff hwidth hheight hr t).mp hall
    exact ⟨r, hr, (job.near_corners_iff hwidth hheight).mp hnear⟩
  · rintro ⟨r, hr, hnear⟩
    have hcorners := (job.near_corners_iff hwidth hheight).mpr hnear
    exact (p.forall₂_near_iff hwidth hheight hr t).mpr hcorners

/-- A row of seven pixels on ten millimetres. -/
def Job.seven : Job where
  width := .real 10
  height := .real 1
  maxPower := .whole 100
  feedRate := .whole 1000

/-- A row of seven pixels. -/
def Grid.seven : Grid where
  width := 7
  rows := [[0, 0, 0, 0, 0, 0, 0]]
  uniform := by decide

theorem exists_compile?_seven : ∃ s w, Job.seven.setting? .seven = .ok s ∧
    compile? s .seven Job.seven.startX Job.seven.startY = .ok w ∧
      (printed s.step).value? = some (1429 / 1000) := by
  have hok : (match Job.seven.setting? .seven with
    | .ok s => (compile? s .seven Job.seven.startX Job.seven.startY).toBool &&
      decide ((printed s.step).value? = some (1429 / 1000))
    | .error _ => false) = true := by decide +kernel
  match hs : Job.seven.setting? .seven with
  | .error _ =>
    rw [hs] at hok
    cases hok
  | .ok s =>
    simp only [hs, Bool.and_eq_true, decide_eq_true_eq] at hok
    match hw : compile? s .seven Job.seven.startX Job.seven.startY with
    | .error _ =>
      rw [hw] at hok
      cases hok.1
    | .ok w => exact ⟨s, w, rfl, hw, hok.2⟩

/-- A step of ten sevenths of a millimetre is printed as 1.429, and after seven of them the head is
three micrometres too far. -/
theorem not_traces_seven : ∃ s w, Job.seven.setting? .seven = .ok s ∧
    compile? s .seven Job.seven.startX Job.seven.startY = .ok w ∧
      ¬ w.Traces (1 / 1000) (Job.seven.raster .seven) .seven := by
  obtain ⟨s, w, hs, hw, hvalue⟩ := exists_compile?_seven
  refine ⟨s, w, hs, hw, fun htraces ↦ ?_⟩
  obtain ⟨-, r, hr, -, hright, -, -⟩ := (traces_iff hs hw (1 / 1000)).mp htraces
  have hleft : r.left = 0 := by
    obtain ⟨p, hlines⟩ := exists_plan hw
    obtain ⟨x, y, hplace, hx, -⟩ := hr.start
    obtain ⟨rfl, -⟩ := p.eq_of_place_mem_lines (hlines ▸ hplace)
    have hzero : (printed Job.seven.startX).value? = some 0 := by decide +kernel
    rw [printed_eq p.left_eq, hx] at hzero
    exact Option.some.inj hzero
  have hstep : r.step = 1429 / 1000 := by
    obtain ⟨d, hd, hd'⟩ := hr.step (by decide) (by decide)
    rw [printed_eq hd, hd'] at hvalue
    exact Option.some.inj hvalue
  have hten : Job.seven.width.value = 10 := by decide +kernel
  have hzero : Job.seven.startX.value = 0 := by decide +kernel
  rw [hleft, hstep, hten, hzero] at hright
  norm_num [Grid.seven] at hright

end Engraving
