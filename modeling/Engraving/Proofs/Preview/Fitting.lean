import Engraving.Proofs.Preview.Placement

/-!
# Fitting bounds onto a surface

Over the rationals the bounds of a path are fitted so that they take up the room between the
paddings along one axis and no more than the room along the other one. They are put into the lower
left corner of the surface, one padding away from its sides: `frame_fit` tells where exactly, and
what holds of the images of all places within the bounds is read off that frame.

A room is never less than one pixel. On a surface that is too small for its paddings the scale
therefore stays positive; the padding, however, stays what it is, and bounds may be put beyond the
far sides.
-/

namespace Engraving

namespace Bounds

variable {b r : Bounds ℚ} {p : Point ℚ}

/-- No side lies beyond the opposite one. -/
structure IsOrdered (b : Bounds ℚ) : Prop where
  x : b.minX ≤ b.maxX
  y : b.minY ≤ b.maxY

theorem IsOrdered.width_nonneg (h : b.IsOrdered) : 0 ≤ b.width := sub_nonneg.mpr h.x

theorem IsOrdered.height_nonneg (h : b.IsOrdered) : 0 ≤ b.height := sub_nonneg.mpr h.y

theorem IsOrdered.contains_of_isCorner (h : b.IsOrdered) (hp : b.IsCorner p) :
    b.contains p = true := by
  obtain ⟨hx, hy⟩ := hp
  rw [contains_iff]
  refine ⟨?_, ?_, ?_, ?_⟩
  · exact hx.elim (fun heq ↦ heq.ge) fun heq ↦ heq ▸ h.x
  · exact hx.elim (fun heq ↦ heq ▸ h.x) fun heq ↦ heq.le
  · exact hy.elim (fun heq ↦ heq.ge) fun heq ↦ heq ▸ h.y
  · exact hy.elim (fun heq ↦ heq ▸ h.y) fun heq ↦ heq.le

theorem Encloses.contains (h : r.Encloses b) (hp : b.contains p = true) : r.contains p = true := by
  obtain ⟨hminX, hmaxX, hminY, hmaxY⟩ := h
  obtain ⟨hleft, hright, hlower, hupper⟩ := contains_iff.mp hp
  exact contains_iff.mpr ⟨le_trans hminX hleft, le_trans hright hmaxX, le_trans hminY hlower,
    le_trans hupper hmaxY⟩

end Bounds

namespace SurfaceMap

/-! ## The scale -/

section scale

variable {side padding room extent : ℚ}

theorem room_eq (side padding : ℚ) :
    SurfaceMap.room side padding = max (side - 2 * padding) 1 := by
  have hroom : SurfaceMap.room side padding = max (side - padding * 2) 1 :=
    (max_def_lt _ _).symm
  rw [hroom, mul_comm]

theorem room_pos (side padding : ℚ) : 0 < SurfaceMap.room side padding := by
  rw [room_eq]
  exact lt_max_of_lt_right one_pos

theorem scaleOf_eq (room extent : ℚ) :
    scaleOf room extent = if 0 < extent then room / extent else 1 := rfl

theorem scaleOf_pos (hroom : 0 < room) : 0 < scaleOf room extent := by
  rw [scaleOf_eq]
  split
  · next hextent => exact div_pos hroom hextent
  · exact one_pos

theorem mul_scaleOf (hextent : 0 < extent) : extent * scaleOf room extent = room := by
  rw [scaleOf_eq, if_pos hextent, mul_div_cancel₀ room hextent.ne']

/-- At a scale that fits it into a room, an extent takes up no more than the room. -/
theorem mul_le_of_le_scaleOf {s : ℚ} (hextent : 0 ≤ extent) (hroom : 0 < room)
    (hs : s ≤ scaleOf room extent) : extent * s ≤ room := by
  rcases hextent.eq_or_lt with rfl | hpos
  · rw [zero_mul]
    exact hroom.le
  · calc extent * s ≤ extent * scaleOf room extent := by gcongr
      _ = room := mul_scaleOf hpos

end scale

variable {b r : Bounds ℚ} {m : SurfaceMap ℚ} {w h p : ℚ} {view : View ℚ}

theorem scale_fit : (fit b w h p view).scale
    = min (scaleOf (room w p) b.width) (scaleOf (room h p) b.height) :=
  (min_def_lt' _ _).symm

theorem scale_fit_pos : 0 < (fit b w h p view).scale := by
  rw [scale_fit]
  exact lt_min (scaleOf_pos (room_pos w p)) (scaleOf_pos (room_pos h p))

theorem width_mul_scale_le (hb : b.IsOrdered) : b.width * (fit b w h p view).scale ≤ room w p :=
  mul_le_of_le_scaleOf hb.width_nonneg (room_pos w p) (scale_fit.trans_le (min_le_left _ _))

theorem height_mul_scale_le (hb : b.IsOrdered) : b.height * (fit b w h p view).scale ≤ room h p :=
  mul_le_of_le_scaleOf hb.height_nonneg (room_pos h p) (scale_fit.trans_le (min_le_right _ _))

/-- One of two positive extents takes up the whole room. -/
theorem mul_scale_eq_or (hwidth : 0 < b.width) (hheight : 0 < b.height) :
    b.width * (fit b w h p view).scale = room w p ∨
      b.height * (fit b w h p view).scale = room h p := by
  rw [scale_fit]
  refine (min_choice (scaleOf (room w p) b.width) (scaleOf (room h p) b.height)).imp ?_ ?_
  · intro heq
    rw [heq, mul_scaleOf hwidth]
  · intro heq
    rw [heq, mul_scaleOf hheight]

/-! ## Images -/

theorem apply_fit_identity (q : Point ℚ) : (fit b w h p .identity).apply q
    = ⟨(q.x - b.minX) * (fit b w h p .identity).scale + p,
      h - ((q.y - b.minY) * (fit b w h p .identity).scale + p)⟩ := by
  have hidentity (x : ℚ) : x * 1 + 0 = x := by ring
  exact congrArg₂ Point.mk (hidentity _) (hidentity _)

theorem apply_fit (q : Point ℚ) : (fit b w h p view).apply q
    = ⟨view.zoom * ((fit b w h p .identity).apply q).x + view.panX,
      view.zoom * ((fit b w h p .identity).apply q).y + view.panY⟩ := by
  rw [apply_fit_identity]
  exact congrArg₂ Point.mk (congrArg (· + view.panX) (mul_comm _ _))
    (congrArg (· + view.panY) (mul_comm _ _))

/-- Where the axis of `x` keeps its direction and that of `y` does not, the lower left corner of the
bounds becomes the lower left one of the frame on the surface. -/
theorem frame_eq {q r : Point ℚ} (hq : m.apply ⟨m.bounds.minX, m.bounds.minY⟩ = q)
    (hr : m.apply ⟨m.bounds.maxX, m.bounds.maxY⟩ = r) (hx : q.x ≤ r.x) (hy : r.y ≤ q.y) :
    m.frame = ⟨q.x, r.x, r.y, q.y⟩ := by
  rw [frame, hq, hr, min_eq_left hx, max_eq_right hx, min_eq_right hy, max_eq_left hy]

/-- The lower left corner is put one padding away from the left and the lower side. -/
theorem apply_fit_lowerLeft : (fit b w h p .identity).apply ⟨b.minX, b.minY⟩ = ⟨p, h - p⟩ := by
  rw [apply_fit_identity, sub_self, sub_self, zero_mul, zero_add]

theorem apply_fit_upperRight : (fit b w h p .identity).apply ⟨b.maxX, b.maxY⟩
    = ⟨b.width * (fit b w h p .identity).scale + p,
      h - (b.height * (fit b w h p .identity).scale + p)⟩ := apply_fit_identity _

theorem frame_fit (hb : b.IsOrdered) : (fit b w h p .identity).frame
    = ⟨p, b.width * (fit b w h p .identity).scale + p,
      h - (b.height * (fit b w h p .identity).scale + p), h - p⟩ := by
  have hscale : 0 ≤ (fit b w h p .identity).scale := scale_fit_pos.le
  refine frame_eq apply_fit_lowerLeft apply_fit_upperRight ?_ ?_
  · exact le_add_of_nonneg_left (mul_nonneg hb.width_nonneg hscale)
  · exact sub_le_sub_left (le_add_of_nonneg_left (mul_nonneg hb.height_nonneg hscale)) h

/-- All places within the bounds have their images in a rectangle exactly when it encloses the
frame. -/
theorem forall_contains_apply_iff (hm : m.bounds.IsOrdered) :
    (∀ q, m.bounds.contains q = true → r.contains (m.apply q) = true) ↔ r.Encloses m.frame := by
  constructor
  · intro hr
    have hcorner {q : Point ℚ} (hq : m.frame.IsCorner q) :
        ∃ c, m.bounds.contains c = true ∧ m.apply c = q :=
      (isCorner_frame_iff.mp hq).imp fun _ ↦ .imp_left hm.contains_of_isCorner
    have htouches : m.frame.Touches fun q ↦ ∃ c, m.bounds.contains c = true ∧ m.apply c = q :=
      ⟨⟨_, hcorner (q := ⟨m.frame.minX, m.frame.minY⟩) ⟨.inl rfl, .inl rfl⟩, rfl⟩,
        ⟨_, hcorner (q := ⟨m.frame.maxX, m.frame.maxY⟩) ⟨.inr rfl, .inr rfl⟩, rfl⟩,
        ⟨_, hcorner (q := ⟨m.frame.minX, m.frame.minY⟩) ⟨.inl rfl, .inl rfl⟩, rfl⟩,
        ⟨_, hcorner (q := ⟨m.frame.maxX, m.frame.maxY⟩) ⟨.inr rfl, .inr rfl⟩, rfl⟩⟩
    refine htouches.encloses ?_
    rintro _ ⟨c, hc, rfl⟩
    exact hr c hc
  · intro hr q hq
    exact hr.contains (contains_frame hq)

/-! ## Between the paddings -/

def padded (m : SurfaceMap ℚ) : Bounds ℚ :=
  ⟨m.padding, m.width - m.padding, m.padding, m.height - m.padding⟩

/-- The images of the bounds reach from one side of the padded area to the opposite one. -/
def Spans (m : SurfaceMap ℚ) : Prop :=
  ∃ q r, m.bounds.contains q = true ∧ m.bounds.contains r = true ∧
    ((m.apply q).x = m.padded.minX ∧ (m.apply r).x = m.padded.maxX ∨
      (m.apply q).y = m.padded.maxY ∧ (m.apply r).y = m.padded.minY)

/-- One positive scale holds for both axes; that of `x` keeps its direction, that of `y`, which
points downwards on the surface, is turned round. -/
structure IsUpright (m : SurfaceMap ℚ) : Prop where
  scale_pos : 0 < m.scale
  x_sub : ∀ q r, (m.apply r).x - (m.apply q).x = m.scale * (r.x - q.x)
  y_sub : ∀ q r, (m.apply q).y - (m.apply r).y = m.scale * (r.y - q.y)

theorem isUpright_fit : (fit b w h p .identity).IsUpright := by
  refine ⟨scale_fit_pos, fun q r ↦ ?_, fun q r ↦ ?_⟩
  · rw [apply_fit_identity, apply_fit_identity]
    ring
  · rw [apply_fit_identity, apply_fit_identity]
    ring

namespace IsUpright

variable {q r : Point ℚ}

theorem apply_y_lt (hm : m.IsUpright) (hy : q.y < r.y) : (m.apply r).y < (m.apply q).y := by
  rw [← sub_pos, hm.y_sub]
  exact mul_pos hm.scale_pos (sub_pos.mpr hy)

theorem injective (hm : m.IsUpright) : Function.Injective m.apply := by
  intro q r heq
  have hcoordinate {x y : ℚ} (hxy : m.scale * (y - x) = 0) : x = y :=
    (sub_eq_zero.mp ((mul_eq_zero_iff_left hm.scale_pos.ne').mp hxy)).symm
  have hx : q.x = r.x := hcoordinate (by rw [← hm.x_sub, heq, sub_self])
  have hy : q.y = r.y := hcoordinate (by rw [← hm.y_sub, heq, sub_self])
  exact congrArg₂ Point.mk hx hy

end IsUpright

/-- The bounds are put upright between the paddings. Unless they are flat they reach from side to
side. -/
structure Fits (m : SurfaceMap ℚ) : Prop where
  contains : ∀ q, m.bounds.contains q = true → m.padded.contains (m.apply q) = true
  spans : 0 < m.bounds.width → 0 < m.bounds.height → m.Spans
  isUpright : m.IsUpright
  /-- What is higher for the machine is higher on the surface. -/
  higher : ∀ q r, q.y < r.y → (m.apply r).y < (m.apply q).y
  injective : Function.Injective m.apply

theorem padded_fit : (fit b w h p view).padded = ⟨p, w - p, p, h - p⟩ := rfl

theorem room_of_le {side : ℚ} (hside : 1 ≤ side - 2 * p) : room side p = side - 2 * p := by
  rw [room_eq, max_eq_left hside]

/-- Of two extents that are positive, one reaches from padding to padding. -/
theorem spans_fit (hb : b.IsOrdered) (hw : 1 ≤ w - 2 * p) (hh : 1 ≤ h - 2 * p)
    (hwidth : 0 < b.width) (hheight : 0 < b.height) : (fit b w h p .identity).Spans := by
  refine ⟨⟨b.minX, b.minY⟩, ⟨b.maxX, b.maxY⟩, hb.contains_of_isCorner ⟨.inl rfl, .inl rfl⟩,
    hb.contains_of_isCorner ⟨.inr rfl, .inr rfl⟩, ?_⟩
  have hextents : b.width * (fit b w h p .identity).scale = room w p ∨
      b.height * (fit b w h p .identity).scale = room h p := mul_scale_eq_or hwidth hheight
  rw [room_of_le hw, room_of_le hh] at hextents
  rw [apply_fit_lowerLeft, apply_fit_upperRight, padded_fit]
  refine hextents.imp (fun hx ↦ ⟨rfl, ?_⟩) fun hy ↦ ⟨rfl, ?_⟩
  · rw [hx]
    ring
  · rw [hy]
    ring

/-- **A path fits between the paddings.** Whatever the bounds and the padding are, a surface on
which at least one pixel remains between the paddings shows the bounds there, upright and with
nothing left over along one axis unless they are flat. Zoom and pan come after that. -/
theorem fits_fit (hb : b.IsOrdered) (hw : 1 ≤ w - 2 * p) (hh : 1 ≤ h - 2 * p) :
    (fit b w h p .identity).Fits ∧
      ∀ (view : View ℚ) (q : Point ℚ), (fit b w h p view).apply q
        = ⟨view.zoom * ((fit b w h p .identity).apply q).x + view.panX,
          view.zoom * ((fit b w h p .identity).apply q).y + view.panY⟩ := by
  have hwidth : b.width * (fit b w h p .identity).scale ≤ room w p := width_mul_scale_le hb
  have hheight : b.height * (fit b w h p .identity).scale ≤ room h p := height_mul_scale_le hb
  rw [room_of_le hw] at hwidth
  rw [room_of_le hh] at hheight
  refine ⟨⟨(forall_contains_apply_iff hb).mpr ?_, spans_fit hb hw hh, isUpright_fit,
    fun _ _ ↦ isUpright_fit.apply_y_lt, isUpright_fit.injective⟩, fun _ ↦ apply_fit⟩
  -- The frame begins at two of the paddings, and the rooms keep it from the other two.
  rw [frame_fit hb, padded_fit]
  exact ⟨le_rfl, by linarith, by linarith, le_rfl⟩

/-- The bounds of a path that is much higher than wide. -/
def highBounds : Bounds ℚ := ⟨-1, 1, 0, 1000⟩

/-- One pixel remains on each side, and the high path is put there. -/
theorem fits_fit_highBounds : highBounds.IsOrdered ∧ (1 : ℚ) ≤ 81 - 2 * 40 ∧
    (fit highBounds 81 81 40 .identity).Fits ∧
      ∀ q : Point ℚ, (fit highBounds 81 81 40 ⟨2, 3, -4⟩).apply q
        = ⟨2 * ((fit highBounds 81 81 40 .identity).apply q).x + 3,
          2 * ((fit highBounds 81 81 40 .identity).apply q).y + -4⟩ := by
  have hb : highBounds.IsOrdered := ⟨by decide +kernel, by decide +kernel⟩
  have hside : (1 : ℚ) ≤ 81 - 2 * 40 := by norm_num
  obtain ⟨hfits, happly⟩ := fits_fit hb hside hside
  exact ⟨hb, hside, hfits, happly ⟨2, 3, -4⟩⟩

/-! ## On the surface -/

def sheet (m : SurfaceMap ℚ) : Bounds ℚ := ⟨0, m.width, 0, m.height⟩

/-- What lies within the bounds is put onto the surface. -/
def IsOnSheet (m : SurfaceMap ℚ) : Prop :=
  ∀ q, m.bounds.contains q = true → m.sheet.contains (m.apply q) = true

theorem sheet_fit : (fit b w h p view).sheet = ⟨0, w, 0, h⟩ := rfl

/-- Where one padding alone is wider than the surface, the lower left corner of the bounds is put
beyond it. -/
theorem not_isOnSheet_fit_of_lt (hb : b.IsOrdered) (hp : w < p) :
    ¬(fit b w h p .identity).IsOnSheet := by
  intro hm
  have hcorner := hm ⟨b.minX, b.minY⟩ (hb.contains_of_isCorner ⟨.inl rfl, .inl rfl⟩)
  rw [apply_fit_lowerLeft, sheet_fit, Bounds.contains_iff] at hcorner
  exact hp.not_ge hcorner.2.1

/-- On the smallest surface the padding alone takes a path out of sight. -/
theorem not_forall_isOnSheet_fit : ¬∀ (b : Bounds ℚ) (w h p : ℚ), b.IsOrdered → 1 ≤ w → 1 ≤ h →
    0 ≤ p → 0 < (fit b w h p .identity).scale ∧ (fit b w h p .identity).IsOnSheet := by
  intro hall
  have hb : (⟨0, 20, 0, 20⟩ : Bounds ℚ).IsOrdered := ⟨by norm_num, by norm_num⟩
  exact not_isOnSheet_fit_of_lt hb (by norm_num)
    (hall ⟨0, 20, 0, 20⟩ 1 1 40 hb le_rfl le_rfl (by norm_num)).2

theorem isOnSheet_fit_iff_of_isOrdered (hb : b.IsOrdered) (hp : 0 ≤ p) :
    (fit b w h p .identity).IsOnSheet ↔
      p + b.width * (fit b w h p .identity).scale ≤ w ∧
        p + b.height * (fit b w h p .identity).scale ≤ h := by
  rw [IsOnSheet, forall_contains_apply_iff hb, frame_fit hb, sheet_fit]
  constructor
  · rintro ⟨-, hwidth, hheight, -⟩
    exact ⟨by linarith, by linarith⟩
  · rintro ⟨hwidth, hheight⟩
    exact ⟨hp, by linarith, by linarith, by linarith⟩

/-- What takes up no more than its room stays on a side that holds a padding and a pixel. -/
theorem add_le_of_le_room {side extent : ℚ} (hp : 0 ≤ p) (hside : p + 1 ≤ side)
    (hextent : extent ≤ room side p) : p + extent ≤ side := by
  rw [room_eq] at hextent
  rcases le_max_iff.mp hextent with hextent | hextent
  · linarith
  · linarith

/-- The square of one millimetre. -/
def unitBounds : Bounds ℚ := ⟨0, 1, 0, 1⟩

theorem isOrdered_unitBounds : unitBounds.IsOrdered := ⟨zero_le_one, zero_le_one⟩

theorem width_unitBounds : unitBounds.width = 1 := sub_zero 1

theorem height_unitBounds : unitBounds.height = 1 := sub_zero 1

/-- A room holds a square millimetre at one pixel at least. -/
theorem one_le_scale_fit_unitBounds : 1 ≤ (fit unitBounds w h p view).scale := by
  have hroom (side : ℚ) : 1 ≤ scaleOf (room side p) 1 :=
    calc 1 ≤ room side p := room_eq side p ▸ le_max_right _ _
      _ = 1 * scaleOf (room side p) 1 := (mul_scaleOf one_pos).symm
      _ = scaleOf (room side p) 1 := one_mul _
  rw [scale_fit, width_unitBounds, height_unitBounds]
  exact le_min (hroom w) (hroom h)

/-- **When a path is visible.** The scale is always positive. On the surface lie the bounds that
take up, at their scale, no more than what the left and the lower padding leave; a surface on which
these paddings leave less than one pixel does not show all bounds, any other one does. -/
theorem isOnSheet_fit_iff (hp : 0 ≤ p) :
    (∀ b : Bounds ℚ, 0 < (fit b w h p .identity).scale) ∧
    (∀ b : Bounds ℚ, b.IsOrdered → ((fit b w h p .identity).IsOnSheet ↔
      p + b.width * (fit b w h p .identity).scale ≤ w ∧
        p + b.height * (fit b w h p .identity).scale ≤ h)) ∧
    ((∀ b : Bounds ℚ, b.IsOrdered → (fit b w h p .identity).IsOnSheet) ↔
      p + 1 ≤ w ∧ p + 1 ≤ h) := by
  refine ⟨fun _ ↦ scale_fit_pos, fun b hb ↦ isOnSheet_fit_iff_of_isOrdered hb hp, ?_, ?_⟩
  · intro hall
    -- A square millimetre is the least that need be shown: it takes up a pixel on any surface.
    have hunit := (isOnSheet_fit_iff_of_isOrdered isOrdered_unitBounds hp).mp
      (hall unitBounds isOrdered_unitBounds)
    rw [width_unitBounds, height_unitBounds, one_mul] at hunit
    have hscale : 1 ≤ (fit unitBounds w h p .identity).scale := one_le_scale_fit_unitBounds
    exact ⟨by linarith [hunit.1], by linarith [hunit.2]⟩
  · rintro ⟨hw, hh⟩ b hb
    exact (isOnSheet_fit_iff_of_isOrdered hb hp).mpr
      ⟨add_le_of_le_room hp hw (width_mul_scale_le hb),
        add_le_of_le_room hp hh (height_mul_scale_le hb)⟩

/-- A surface that is too small for two paddings may show all paths, and a smaller one not. -/
theorem isOnSheet_fit_iff_forty :
    (0 : ℚ) ≤ 40 ∧ (∀ b : Bounds ℚ, b.IsOrdered → (fit b 41 60 40 .identity).IsOnSheet) ∧
      ¬∀ b : Bounds ℚ, b.IsOrdered → (fit b 40 60 40 .identity).IsOnSheet := by
  have hpadding : (0 : ℚ) ≤ 40 := by norm_num
  obtain ⟨-, -, hlarge⟩ := isOnSheet_fit_iff (w := 41) (h := 60) hpadding
  obtain ⟨-, -, hsmall⟩ := isOnSheet_fit_iff (w := 40) (h := 60) hpadding
  exact ⟨hpadding, hlarge.mpr ⟨by norm_num, by norm_num⟩,
    fun hall ↦ absurd (hsmall.mp hall).1 (by norm_num)⟩

end SurfaceMap

end Engraving
