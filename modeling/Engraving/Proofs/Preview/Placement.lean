import Engraving.Proofs.Preview.Size
import Engraving.Proofs.Toolpath.ExactPath
import Mathlib.Order.Interval.Set.UnorderedInterval

/-!
# Where a preview puts a path

The outline of a preview goes through the coefficients of an affine map, all else through the map
itself. Over the rationals the two are one map. It takes the bounds of the path to a rectangle,
which may be flipped along an axis, and what lies in the bounds to what lies in that rectangle; so
the outline frames the path and, because every path begins there, the origin.

Whatever the numbers are, every segment is drawn once, among the rapid or among the other lines.
-/

namespace Engraving

/-! ## Drawing every segment once -/

/-- Every segment is drawn by `line` once, among the rapid lines if it is rapid and among the others
if it is not, in the order of the segments. -/
inductive IsDealt {α : Type} (line : Segment α → Point α × Point α) :
    List (Segment α) → List (Point α × Point α) → List (Point α × Point α) → Prop
  | nil : IsDealt line [] [] []
  | rapid {s : Segment α} {segments : List (Segment α)} {rapid feed : List (Point α × Point α)} :
    s.rapid = true → IsDealt line segments rapid feed →
      IsDealt line (s :: segments) (line s :: rapid) feed
  | feed {s : Segment α} {segments : List (Segment α)} {rapid feed : List (Point α × Point α)} :
    s.rapid = false → IsDealt line segments rapid feed →
      IsDealt line (s :: segments) rapid (line s :: feed)

theorem SurfaceMap.isDealt_draw {α : Type} [Scalar α] (m : SurfaceMap α)
    (segments : List (Segment α)) :
    IsDealt m.line segments (m.draw segments).rapid (m.draw segments).feed := by
  induction segments with
  | nil => exact .nil
  | cons s rest ih =>
    rw [draw, List.filter_cons, List.filter_cons]
    cases hs : s.rapid with
    | true => exact .rapid hs ih
    | false => exact .feed hs ih

theorem IsDealt.exists_of_mem {α : Type} {line : Segment α → Point α × Point α}
    {segments : List (Segment α)} {rapid feed : List (Point α × Point α)}
    (h : IsDealt line segments rapid feed) {ends : Point α × Point α}
    (hends : ends ∈ rapid ++ feed) : ∃ s ∈ segments, line s = ends := by
  rw [List.mem_append] at hends
  induction h with
  | nil => simp at hends
  | @rapid s _ _ _ _ _ ih =>
    rw [List.mem_cons, or_assoc] at hends
    rcases hends with rfl | hends
    · exact ⟨s, List.mem_cons_self, rfl⟩
    · exact (ih hends).imp fun _ ↦ .imp_left (List.mem_cons_of_mem s)
  | @feed s _ _ _ _ _ ih =>
    rw [List.mem_cons, or_left_comm] at hends
    rcases hends with rfl | hends
    · exact ⟨s, List.mem_cons_self, rfl⟩
    · exact (ih hends).imp fun _ ↦ .imp_left (List.mem_cons_of_mem s)

/-! ## Corners -/

namespace Bounds

/-- The place is one of the four corners of the rectangle. -/
def IsCorner (r : Bounds ℚ) (p : Point ℚ) : Prop :=
  (p.x = r.minX ∨ p.x = r.maxX) ∧ (p.y = r.minY ∨ p.y = r.maxY)

/-- A ring goes through the corners, whether its first place is repeated or not. -/
theorem mem_ring_iff {b : Bounds ℚ} {p : Point ℚ} : p ∈ b.ring ↔ b.IsCorner p := by
  obtain ⟨x, y⟩ := p
  have hcorners : (⟨x, y⟩ : Point ℚ) ∈ ([⟨b.maxX, b.minY⟩, ⟨b.maxX, b.maxY⟩, ⟨b.minX, b.maxY⟩,
      ⟨b.minX, b.minY⟩] : List (Point ℚ)) ↔ b.IsCorner ⟨x, y⟩ := by
    simp only [List.mem_cons, List.not_mem_nil, or_false, Point.mk.injEq, IsCorner]
    tauto
  rw [ring]
  split
  · exact hcorners
  · rw [List.mem_append, List.mem_singleton, hcorners, or_iff_left_of_imp]
    rintro ⟨⟩
    exact ⟨Or.inr rfl, Or.inl rfl⟩

end Bounds

/-! ## The frame -/

theorem eq_min_or_eq_max_iff {a b c : ℚ} : (a = min b c ∨ a = max b c) ↔ (a = b ∨ a = c) := by
  rcases le_total b c with h | h
  · rw [min_eq_left h, max_eq_right h]
  · rw [min_eq_right h, max_eq_left h, or_comm]

/-- What lies between two numbers still does when both are scaled, negatively perhaps, and
shifted. -/
theorem min_le_and_le_max_of_mem {l u x : ℚ} (hl : l ≤ x) (hu : x ≤ u) (a c : ℚ) :
    min (a * l + c) (a * u + c) ≤ a * x + c ∧ a * x + c ≤ max (a * l + c) (a * u + c) := by
  rcases le_total 0 a with ha | ha
  · exact ⟨min_le_of_left_le (by gcongr), le_max_of_le_right (by gcongr)⟩
  · have hlower := mul_le_mul_of_nonpos_left hl ha
    have hupper := mul_le_mul_of_nonpos_left hu ha
    exact ⟨min_le_of_right_le (by gcongr), le_max_of_le_left (by gcongr)⟩

namespace SurfaceMap

variable {m : SurfaceMap ℚ} {p : Point ℚ}

theorem affine_apply (m : SurfaceMap ℚ) (p : Point ℚ) : m.affine.apply p = m.apply p := by
  have hx : m.scale * m.view.zoom * p.x + 0 * p.y
        + (m.view.zoom * (m.padding - m.bounds.minX * m.scale) + m.view.panX)
      = ((p.x - m.bounds.minX) * m.scale + m.padding) * m.view.zoom + m.view.panX := by ring
  have hy : 0 * p.x + -m.scale * m.view.zoom * p.y
        + (m.view.zoom * (m.height - m.padding + m.bounds.minY * m.scale) + m.view.panY)
      = (m.height - ((p.y - m.bounds.minY) * m.scale + m.padding)) * m.view.zoom
        + m.view.panY := by ring
  exact congrArg₂ Point.mk hx hy

theorem apply_eq (m : SurfaceMap ℚ) (p : Point ℚ) :
    m.apply p = ⟨m.affine.a * p.x + m.affine.offsetX, m.affine.e * p.y + m.affine.offsetY⟩ := by
  have hx : m.affine.a * p.x + 0 * p.y + m.affine.offsetX
      = m.affine.a * p.x + m.affine.offsetX := by ring
  have hy : 0 * p.x + m.affine.e * p.y + m.affine.offsetY
      = m.affine.e * p.y + m.affine.offsetY := by ring
  rw [← affine_apply]
  exact congrArg₂ Point.mk hx hy

/-- The rectangle to which the fitted bounds are taken. -/
def frame (m : SurfaceMap ℚ) : Bounds ℚ :=
  let p := m.apply ⟨m.bounds.minX, m.bounds.minY⟩
  let q := m.apply ⟨m.bounds.maxX, m.bounds.maxY⟩
  ⟨min p.x q.x, max p.x q.x, min p.y q.y, max p.y q.y⟩

theorem isCorner_frame_iff :
    m.frame.IsCorner p ↔ ∃ c, m.bounds.IsCorner c ∧ m.apply c = p := by
  rw [Bounds.IsCorner, frame, eq_min_or_eq_max_iff, eq_min_or_eq_max_iff]
  simp only [apply_eq]
  constructor
  · rintro ⟨hx, hy⟩
    obtain ⟨x, hcornerX, hx⟩ : ∃ x, (x = m.bounds.minX ∨ x = m.bounds.maxX) ∧
        m.affine.a * x + m.affine.offsetX = p.x := by
      rcases hx with hx | hx
      · exact ⟨_, Or.inl rfl, hx.symm⟩
      · exact ⟨_, Or.inr rfl, hx.symm⟩
    obtain ⟨y, hcornerY, hy⟩ : ∃ y, (y = m.bounds.minY ∨ y = m.bounds.maxY) ∧
        m.affine.e * y + m.affine.offsetY = p.y := by
      rcases hy with hy | hy
      · exact ⟨_, Or.inl rfl, hy.symm⟩
      · exact ⟨_, Or.inr rfl, hy.symm⟩
    exact ⟨⟨x, y⟩, ⟨hcornerX, hcornerY⟩, congrArg₂ Point.mk hx hy⟩
  · rintro ⟨c, ⟨hx, hy⟩, rfl⟩
    constructor
    · rcases hx with hx | hx
      · exact Or.inl (by rw [hx])
      · exact Or.inr (by rw [hx])
    · rcases hy with hy | hy
      · exact Or.inl (by rw [hy])
      · exact Or.inr (by rw [hy])

theorem contains_frame (h : m.bounds.contains p = true) : m.frame.contains (m.apply p) = true := by
  obtain ⟨hleft, hright, hlower, hupper⟩ := Bounds.contains_iff.mp h
  obtain ⟨hx, hx'⟩ := min_le_and_le_max_of_mem hleft hright m.affine.a m.affine.offsetX
  obtain ⟨hy, hy'⟩ := min_le_and_le_max_of_mem hlower hupper m.affine.e m.affine.offsetY
  rw [Bounds.contains_iff]
  simp only [frame, apply_eq]
  exact ⟨hx, hx', hy, hy'⟩

/-- The drawing shows the segments and the origin of the machine within the outline of the fitted
bounds. -/
structure Shows (m : SurfaceMap ℚ) (segments : List (Segment ℚ)) (d : Drawing ℚ) : Prop where
  agrees : ∀ p, m.affine.apply p = m.apply p
  /-- Every segment is drawn once, its ends put where the map says. -/
  dealt : IsDealt (fun s ↦ (m.apply s.start, m.apply s.finish)) segments d.rapid d.feed
  origin : d.origin = m.apply ⟨0, 0⟩
  /-- The outline goes through the corners of the bounds, put where the coefficients say. -/
  outline : ∀ p, p ∈ d.outline ↔ ∃ c, m.bounds.IsCorner c ∧ m.affine.apply c = p
  /-- These are the corners of a rectangle, and nothing lies outside of it. -/
  framed : ∃ r : Bounds ℚ, (∀ p, p ∈ d.outline ↔ r.IsCorner p) ∧
    (∀ ends ∈ d.rapid ++ d.feed, r.contains ends.1 = true ∧ r.contains ends.2 = true) ∧
    r.contains d.origin = true

theorem shows_draw {segments : List (Segment ℚ)}
    (hends : ∀ s ∈ segments, m.bounds.contains s.start = true ∧ m.bounds.contains s.finish = true)
    (horigin : m.bounds.contains ⟨0, 0⟩ = true) : m.Shows segments (m.draw segments) := by
  have hdealt := m.isDealt_draw segments
  have houtline (p : Point ℚ) :
      p ∈ (m.draw segments).outline ↔ ∃ c, m.bounds.IsCorner c ∧ m.affine.apply c = p := by
    rw [draw, List.mem_map]
    simp only [Bounds.mem_ring_iff]
  refine ⟨m.affine_apply, hdealt, rfl, houtline, m.frame, fun p ↦ ?_, ?_, contains_frame horigin⟩
  · rw [houtline, isCorner_frame_iff]
    simp only [affine_apply]
  · rintro _ hmem
    obtain ⟨s, hs, rfl⟩ := hdealt.exists_of_mem hmem
    exact (hends s hs).imp contains_frame contains_frame

end SurfaceMap

/-! ## Previews -/

/-- A figure is drawn by the same formulas, on floats. -/
theorem Figure.drawing_of_ofToolpath? {t : Toolpath} {width height : ℤ} {style : PreviewStyle}
    {view : View Float} {f : Figure} (h : ofToolpath? t width height style view = .ok f) :
    ∃ m : SurfaceMap Float,
      SurfaceMap.fit? t.bounds (.whole width) (.whole height) style.padding view = .ok m ∧
      f.drawing = m.draw t.segments := by
  obtain ⟨m, hm, h⟩ := bind_eq_ok_iff.mp h
  obtain ⟨⟨_, _⟩, -, h⟩ := bind_eq_ok_iff.mp h
  obtain ⟨_, -, h⟩ := bind_eq_ok_iff.mp h
  obtain ⟨_, -, h⟩ := bind_eq_ok_iff.mp h
  obtain ⟨_, -, h⟩ := bind_eq_ok_iff.mp h
  obtain ⟨_, -, h⟩ := bind_eq_ok_iff.mp h
  cases h
  exact ⟨m, mapError_eq_ok_iff.mp hm, rfl⟩

/-- **A preview shows the whole path.** When the coordinates of a program are finite they tell a path
of rational places, which on a surface of any size, zoomed and panned in any way, is drawn segment
by segment within the outline of its bounds, as is the origin of the machine. Figures of the program
are drawn by the same formulas on floats, in a plain style those of `SurfaceMap.fit`, and draw every
segment once; there is one for all sizes that are floats, in every plain style with colours. -/
theorem shows_of_ofText? {strict : Bool} {text : List Char} {t : Toolpath}
    (h : Toolpath.ofText? strict text = .ok t) (hfinite : ∀ s ∈ t.segments, s.IsFinite) :
    (∃ exact : List (Segment ℚ), List.Forall₂ Segment.Denotes t.segments exact ∧
      t.bounds.Denotes (Bounds.ofSegments exact) ∧
      ∀ (width height padding : ℚ) (view : View ℚ),
        let m := SurfaceMap.fit (Bounds.ofSegments exact) width height padding view
        m.Shows exact (m.draw exact)) ∧
    ∀ (width height : ℤ) (style : PreviewStyle) (view : View Float),
      (∀ f, Figure.ofToolpath? t width height style view = .ok f →
        ∃ m : SurfaceMap Float, f.drawing = m.draw t.segments ∧
          IsDealt m.line t.segments f.drawing.rapid f.drawing.feed ∧
          SurfaceMap.fit? t.bounds (.whole width) (.whole height) style.padding view = .ok m ∧
          (style.IsPlain → ∃ x y padding, wholeFloat? width = .ok x ∧ wholeFloat? height = .ok y ∧
            style.padding = .real padding ∧ m = SurfaceMap.fit t.bounds x y padding view)) ∧
      (1 ≤ width → 1 ≤ height → style.IsPlain → style.HasColors →
        (∃ x, wholeFloat? width = .ok x) → (∃ y, wholeFloat? height = .ok y) →
        ∃ f, Figure.ofToolpath? t width height style view = .ok f) := by
  constructor
  · obtain ⟨exact, hexact⟩ := exists_forall₂_denotes hfinite
    refine ⟨exact, hexact, Bounds.denotes_ofSegments hexact, fun width height padding view ↦ ?_⟩
    exact SurfaceMap.shows_draw (fun _ ↦ Bounds.contains_of_mem)
      (Toolpath.contains_origin h hexact)
  intro width height style view
  constructor
  · intro f hf
    obtain ⟨m, hm, hdrawing⟩ := Figure.drawing_of_ofToolpath? hf
    refine ⟨m, hdrawing, hdrawing ▸ m.isDealt_draw t.segments, hm, ?_⟩
    rintro ⟨⟨padding, hpadding⟩, -⟩
    rw [hpadding] at hm
    obtain ⟨x, y, hx, hy, hfit⟩ := SurfaceMap.exists_eq_fit hm
    exact ⟨x, y, padding, hx, hy, hpadding, hfit⟩
  · rintro hwidth hheight hplain hcolors ⟨x, hx⟩ ⟨y, hy⟩
    exact Figure.exists_ofSegments? hplain hcolors t.segments t.bounds view
      (zero_le_one.trans hwidth) (zero_le_one.trans hheight) hx hy

/-- A text with a rapid move, a feed move and an arc, all to the left of the origin. -/
def leftwardText : List Char := "G0 X-10 Y5\nG1 X-30.5\ng2 x-1 y-2".toList

theorem shows_of_ofText?_leftwardText :
    ∃ t, Toolpath.ofText? false leftwardText = .ok t ∧ (∀ s ∈ t.segments, s.IsFinite) ∧
      t.segments.length = 3 ∧
      (∃ exact : List (Segment ℚ), List.Forall₂ Segment.Denotes t.segments exact ∧
        let m := SurfaceMap.fit (Bounds.ofSegments exact) 800 600 40 ⟨-2, 5, 7⟩
        m.Shows exact (m.draw exact)) ∧
      ∃ f, Figure.ofToolpath? t 800 600 {} .identity = .ok f := by
  have hread : (Toolpath.ofText? false leftwardText).toOption.any (fun t ↦
      t.segments.length = 3 ∧ ∀ s ∈ t.segments, s.IsFinite) = true := by decide +kernel
  cases h : Toolpath.ofText? false leftwardText with
  | error e =>
    rw [h] at hread
    cases hread
  | ok t =>
    rw [h] at hread
    obtain ⟨hlength, hfinite⟩ := of_decide_eq_true hread
    obtain ⟨⟨exact, hexact, -, hshows⟩, hfigures⟩ := shows_of_ofText? h hfinite
    have hfigure := (hfigures 800 600 {} .identity).2 (by decide) (by decide)
      PreviewStyle.isPlain_standard PreviewStyle.hasColors_standard
      ⟨_, wholeFloat?_natCast (n := 800) (by norm_num)⟩
      ⟨_, wholeFloat?_natCast (n := 600) (by norm_num)⟩
    exact ⟨t, rfl, hfinite, hlength, ⟨exact, hexact, hshows 800 600 40 ⟨-2, 5, 7⟩⟩, hfigure⟩

end Engraving
