import Engraving.Proofs.Preview.Size
import Engraving.Proofs.Toolpath.Overflow

/-!
# Places that have no image

Finite coordinates have finite bounds, but fitting the bounds onto a surface may still go wrong. An
extent of the bounds may be infinite, as a difference of floats; then the scale is zero, and a place
on the far side of the bounds has an infinite distance times zero for its image. Or both extents may
be so small that the scale is infinite; then a place on the near side has zero times infinity. In
all other cases everything that is drawn has an image.
-/

namespace Engraving

variable {x y : Float} {a b p q : ℚ}

/-! ## Floats from zero upwards -/

/-- The float is zero or more, infinite perhaps. -/
def IsNonneg (x : Float) : Prop :=
  (∃ q, 0 ≤ q ∧ Denotes x q) ∨ Exact.ofFloat x = .infinite false

theorem IsRounded.isNonneg (h : IsRounded x q) (hq : 0 ≤ q) : IsNonneg x := by
  rcases h with ⟨-, hvalue⟩ | ⟨-, hinfinite⟩
  · exact Or.inl ⟨_, nearestBinary_nonneg hq, hvalue⟩
  · rw [decide_eq_false (not_lt.mpr hq)] at hinfinite
    exact Or.inr hinfinite

theorem IsNonneg.infinite (h : IsNonneg x) (hx : (Exact.ofFloat x).isFinite = false) :
    Exact.ofFloat x = .infinite false := by
  rcases h with ⟨q, -, hq⟩ | h
  · rw [isFinite_iff_denotes.mpr ⟨q, hq⟩] at hx
    cases hx
  · exact h

theorem IsNonneg.not_lt_zero (h : IsNonneg x) (hy : Denotes y 0) : ¬ x < y := by
  rcases h with ⟨q, hq, hx⟩ | h
  · rw [hx.lt_iff hy]
    exact not_lt.mpr hq
  · exact (hy.lt_infinite h).2

theorem IsNonneg.lesser (hx : IsNonneg x) (hy : IsNonneg y) : IsNonneg (Scalar.lesser x y) := by
  rw [Scalar.lesser]
  split
  · exact hy
  · exact hx

theorem Denotes.zero_lesser (hx : Denotes x 0) (hy : IsNonneg y) :
    Denotes (Scalar.lesser x y) 0 := by
  rw [Scalar.lesser, if_neg (hy.not_lt_zero hx)]
  exact hx

theorem IsNonneg.lesser_zero (hx : IsNonneg x) (hy : Denotes y 0) :
    Denotes (Scalar.lesser x y) 0 := by
  rw [Scalar.lesser]
  split
  · exact hy
  · next h =>
    rcases hx with ⟨q, hq, hx⟩ | hx
    · rw [hy.lt_iff hx, not_lt] at h
      rwa [le_antisymm h hq] at hx
    · exact absurd (hy.lt_infinite hx).1 h

/-! ## The scale -/

namespace SurfaceMap

variable {side padding room extent : Float} {r : ℚ}

theorem one_le_room (h : Denotes (SurfaceMap.room side padding) r) : 1 ≤ r := by
  have hone : Denotes (Scalar.ofNat 1) 1 := denotes_ofNat (n := 1) (by norm_num)
  rw [SurfaceMap.room, Scalar.greater] at h
  split at h
  · exact (h.unique hone).ge
  · next hless =>
    rw [h.lt_iff hone] at hless
    exact not_lt.mp hless

theorem isNonneg_scaleOf (hroom : Denotes room r) (hr : 1 ≤ r) (hextent : IsNonneg extent) :
    IsNonneg (scaleOf room extent) := by
  have hone : Denotes (Scalar.ofNat 1) 1 := denotes_ofNat (n := 1) (by norm_num)
  rw [scaleOf]
  split
  · next hpos =>
    rcases hextent with ⟨q, -, hq⟩ | hinfinite
    · have hq' : 0 < q := (denotes_zero.lt_iff hq).mp hpos
      exact (isRounded_div hroom hq hq'.ne').isNonneg (div_nonneg (by linarith) hq'.le)
    · exact Or.inl ⟨0, le_rfl, denotes_div_infinite hroom hinfinite⟩
  · exact Or.inl ⟨1, zero_le_one, hone⟩

/-- No scale above zero fits an infinite extent into a room. -/
theorem denotes_scaleOf_infinite (hroom : Denotes room r)
    (hextent : Exact.ofFloat extent = .infinite false) : Denotes (scaleOf room extent) 0 := by
  have hpos : Scalar.ofNat 0 < extent := (denotes_zero.lt_infinite hextent).1
  rw [scaleOf, if_pos hpos]
  exact denotes_div_infinite hroom hextent

end SurfaceMap

/-! ## The image of a place -/

section axis

variable {low high value scale : Float} {l h v : ℚ}

/-- Within finite extents a finite scale gives every place an image. -/
theorem isDefined_scaled (hlow : Denotes low l) (hhigh : Denotes high h) (hvalue : Denotes value v)
    (hlv : l ≤ v) (hvh : v ≤ h) (hextent : (Exact.ofFloat (high - low)).isFinite = true)
    (hscale : (Exact.ofFloat scale).isFinite = true) : IsDefined ((value - low) * scale) := by
  obtain ⟨s, hs⟩ := isFinite_iff_denotes.mp hscale
  rw [(isRounded_sub hhigh hlow).isFinite_iff] at hextent
  have habs : |v - l| ≤ |h - l| := by
    rw [abs_of_nonneg (sub_nonneg.mpr hlv), abs_of_nonneg (sub_nonneg.mpr (hlv.trans hvh))]
    exact sub_le_sub_right hvh l
  have hdistance := (isRounded_sub hvalue hlow).isFinite_iff.mpr (habs.trans_lt hextent)
  obtain ⟨d, hd⟩ := isFinite_iff_denotes.mp hdistance
  exact (isRounded_mul hd hs).isDefined

/-- On the far side of an infinite extent the scale zero gives no image. -/
theorem not_isDefined_scaled_far (hlow : Denotes low l) (hhigh : Denotes high h)
    (hvalue : Denotes value h) (hextent : (Exact.ofFloat (high - low)).isFinite = false)
    (hscale : Denotes scale 0) : ¬ IsDefined ((value - low) * scale) := by
  have hdistance := isRounded_sub hvalue hlow
  have hinfinite : (Exact.ofFloat (value - low)).isFinite = false := by
    rw [← Bool.not_eq_true, hdistance.isFinite_iff, ← (isRounded_sub hhigh hlow).isFinite_iff,
      hextent]
    exact Bool.false_ne_true
  rcases hdistance with ⟨-, hd⟩ | ⟨-, hd⟩
  · rw [isFinite_iff_denotes.mpr ⟨_, hd⟩] at hinfinite
    cases hinfinite
  · exact not_isDefined_infinite_mul hd hscale

/-- On the near side an infinite scale gives no image. -/
theorem not_isDefined_scaled_near (hlow : Denotes low l) (hvalue : Denotes value l)
    (hscale : Exact.ofFloat scale = .infinite false) : ¬ IsDefined ((value - low) * scale) := by
  have hzero : Denotes (value - low) 0 := by
    have hdistance := isRounded_sub hvalue hlow
    rw [sub_self] at hdistance
    have hvalue := hdistance.denotes (by rw [nearestBinary_zero, abs_zero]; positivity)
    rwa [nearestBinary_zero] at hvalue
  rw [float_mul_comm]
  exact not_isDefined_infinite_mul hscale hzero

end axis

/-- Zoom and pan are finite, and the zoom is not zero. -/
structure View.IsProper (v : View Float) : Prop where
  zoom : ∃ z, Denotes v.zoom z ∧ z ≠ 0
  panX : ∃ q, Denotes v.panX q
  panY : ∃ q, Denotes v.panY q

theorem SurfaceMap.isDefined_apply_iff {m : SurfaceMap Float} (hview : m.view.IsProper)
    (hheight : Denotes m.height a) (hpadding : Denotes m.padding b) (p : Point Float) :
    (m.apply p).IsDefined ↔ IsDefined ((p.x - m.bounds.minX) * m.scale) ∧
      IsDefined ((p.y - m.bounds.minY) * m.scale) := by
  obtain ⟨⟨z, hz, hne⟩, ⟨_, hpanX⟩, _, hpanY⟩ := hview
  refine and_congr ?_ ?_
  · refine (isDefined_add_iff hpanX).trans ?_
    refine (isDefined_mul_iff hz hne).trans ?_
    exact isDefined_add_iff hpadding
  · refine (isDefined_add_iff hpanY).trans ?_
    refine (isDefined_mul_iff hz hne).trans ?_
    refine (isDefined_sub_iff hheight).trans ?_
    exact isDefined_add_iff hpadding

/-! ## The images of a path -/

/-- The places of a path that are drawn: the ends of its segments, and the origin. -/
inductive IsDrawn (segments : List (Segment Float)) : Point Float → Prop
  | origin : IsDrawn segments ⟨0, 0⟩
  | start {s : Segment Float} : s ∈ segments → IsDrawn segments s.start
  | finish {s : Segment Float} : s ∈ segments → IsDrawn segments s.finish

section path

variable {segments : List (Segment Float)} {exact : List (Segment ℚ)}

theorem IsDrawn.exists_denotes (hexact : List.Forall₂ Segment.Denotes segments exact)
    (horigin : (Bounds.ofSegments exact).contains ⟨0, 0⟩ = true) {place : Point Float}
    (h : IsDrawn segments place) :
    ∃ q, place.Denotes q ∧ (Bounds.ofSegments exact).contains q = true := by
  cases h with
  | origin => exact ⟨_, Point.denotes_origin, horigin⟩
  | start hs =>
    obtain ⟨t, ht, hst⟩ := exists_of_mem_forall₂ hexact hs
    exact ⟨_, hst.start, (Bounds.contains_of_mem ht).1⟩
  | finish hs =>
    obtain ⟨t, ht, hst⟩ := exists_of_mem_forall₂ hexact hs
    exact ⟨_, hst.finish, (Bounds.contains_of_mem ht).2⟩

/-- The bounds of a path that moves go through drawn places on all sides. -/
theorem touches_ofSegments (hexact : List.Forall₂ Segment.Denotes segments exact)
    (hne : segments ≠ []) : (Bounds.ofSegments exact).Touches fun q ↦
      ∃ place, IsDrawn segments place ∧ place.Denotes q := by
  have hdrawn : ∀ q ∈ exact.flatMap fun s ↦ [s.start, s.finish],
      ∃ place, IsDrawn segments place ∧ place.Denotes q := by
    intro q hq
    obtain ⟨t, ht, hq⟩ := List.mem_flatMap.mp hq
    obtain ⟨s, hs, hst⟩ := exists_of_mem_forall₂ hexact.flip ht
    rcases List.mem_pair.mp hq with rfl | rfl
    · exact ⟨_, .start hs, hst.start⟩
    · exact ⟨_, .finish hs, hst.finish⟩
  rcases hbounds : Bounds.ofPoints? (exact.flatMap fun s ↦ [s.start, s.finish]) with _ | b
  · cases hexact with
    | nil => exact absurd rfl hne
    | cons _ _ => cases hbounds
  · rw [Bounds.ofSegments, hbounds]
    exact (Bounds.touches_of_ofPoints? hbounds).mono hdrawn

theorem exists_isDrawn_left (hexact : List.Forall₂ Segment.Denotes segments exact) :
    ∃ place, IsDrawn segments place ∧ Denotes place.x (Bounds.ofSegments exact).minX := by
  by_cases hne : segments = []
  · subst hne
    cases hexact
    exact ⟨_, .origin, denotes_zero⟩
  · obtain ⟨q, ⟨place, hplace, hq⟩, hside⟩ := (touches_ofSegments hexact hne).minX
    exact ⟨place, hplace, hside ▸ hq.x⟩

theorem exists_isDrawn_right (hexact : List.Forall₂ Segment.Denotes segments exact)
    (h : (Exact.ofFloat (Bounds.ofSegments segments).width).isFinite = false) :
    ∃ place, IsDrawn segments place ∧ Denotes place.x (Bounds.ofSegments exact).maxX := by
  have hne : segments ≠ [] := by
    rintro rfl
    exact absurd h (by decide +kernel)
  obtain ⟨q, ⟨place, hplace, hq⟩, hside⟩ := (touches_ofSegments hexact hne).maxX
  exact ⟨place, hplace, hside ▸ hq.x⟩

theorem exists_isDrawn_top (hexact : List.Forall₂ Segment.Denotes segments exact)
    (h : (Exact.ofFloat (Bounds.ofSegments segments).height).isFinite = false) :
    ∃ place, IsDrawn segments place ∧ Denotes place.y (Bounds.ofSegments exact).maxY := by
  have hne : segments ≠ [] := by
    rintro rfl
    exact absurd h (by decide +kernel)
  obtain ⟨q, ⟨place, hplace, hq⟩, hside⟩ := (touches_ofSegments hexact hne).maxY
  exact ⟨place, hplace, hside ▸ hq.y⟩

/-- Everything that is drawn of a path with finite coordinates has an image exactly when the extents
of the bounds and the scale are finite. -/
theorem SurfaceMap.isDefined_apply_fit_iff (hexact : List.Forall₂ Segment.Denotes segments exact)
    (horigin : (Bounds.ofSegments exact).contains ⟨0, 0⟩ = true) {width height padding : Float}
    {view : View Float} {r s : ℚ} (hview : view.IsProper) (hheight : Denotes height a)
    (hpadding : Denotes padding b) (hroomX : Denotes (room width padding) r)
    (hroomY : Denotes (room height padding) s) :
    let m := fit (Bounds.ofSegments segments) width height padding view
    (∀ place, IsDrawn segments place → (m.apply place).IsDefined) ↔
      (Exact.ofFloat m.bounds.width).isFinite = true ∧
      (Exact.ofFloat m.bounds.height).isFinite = true ∧
      (Exact.ofFloat m.scale).isFinite = true := by
  intro m
  obtain ⟨hminX, hmaxX, hminY, hmaxY⟩ := Bounds.denotes_ofSegments hexact
  obtain ⟨hleft, hright, hlower, hupper⟩ := Bounds.contains_iff.mp horigin
  have hacross : IsNonneg m.bounds.width :=
    (isRounded_sub hmaxX hminX).isNonneg (sub_nonneg.mpr (hleft.trans hright))
  have hdown : IsNonneg m.bounds.height :=
    (isRounded_sub hmaxY hminY).isNonneg (sub_nonneg.mpr (hlower.trans hupper))
  have hscaleX := isNonneg_scaleOf hroomX (one_le_room hroomX) hacross
  have hscaleY := isNonneg_scaleOf hroomY (one_le_room hroomY) hdown
  have himage := isDefined_apply_iff (m := m) hview hheight hpadding
  constructor
  · intro hdefined
    refine ⟨?_, ?_, ?_⟩ <;> rw [← Bool.not_eq_false]
    · -- The scale is zero, and on the right it meets an infinite distance.
      intro hwide
      have hscale : Denotes m.scale 0 :=
        (denotes_scaleOf_infinite hroomX (hacross.infinite hwide)).zero_lesser hscaleY
      obtain ⟨place, hplace, hx⟩ := exists_isDrawn_right hexact hwide
      exact not_isDefined_scaled_far hminX hmaxX hx hwide hscale
        ((himage place).mp (hdefined place hplace)).1
    · intro hhigh
      have hscale : Denotes m.scale 0 :=
        hscaleX.lesser_zero (denotes_scaleOf_infinite hroomY (hdown.infinite hhigh))
      obtain ⟨place, hplace, hy⟩ := exists_isDrawn_top hexact hhigh
      exact not_isDefined_scaled_far hminY hmaxY hy hhigh hscale
        ((himage place).mp (hdefined place hplace)).2
    · -- The scale is infinite, and on the left it meets no distance at all.
      intro hlarge
      have hscale : Exact.ofFloat m.scale = .infinite false :=
        (hscaleX.lesser hscaleY).infinite hlarge
      obtain ⟨place, hplace, hx⟩ := exists_isDrawn_left hexact
      exact not_isDefined_scaled_near hminX hx hscale
        ((himage place).mp (hdefined place hplace)).1
  · rintro ⟨hwide, hhigh, hscale⟩ place hplace
    obtain ⟨q, ⟨hx, hy⟩, hq⟩ := hplace.exists_denotes hexact horigin
    obtain ⟨hleft, hright, hlower, hupper⟩ := Bounds.contains_iff.mp hq
    rw [himage]
    exact ⟨isDefined_scaled hminX hmaxX hx hleft hright hwide hscale,
      isDefined_scaled hminY hmaxY hy hlower hupper hhigh hscale⟩

end path

/-! ## Programs -/

/-- All that a map is made of is finite, the scale apart, and the zoom is not zero. -/
structure SurfaceMap.IsProper (m : SurfaceMap Float) : Prop where
  view : m.view.IsProper
  padding : ∃ q, Denotes m.padding q
  roomX : ∃ q, Denotes (room m.width m.padding) q
  roomY : ∃ q, Denotes (room m.height m.padding) q

/-- **When coordinates are finite.** No coordinate that is read is ever undefined. All of them are
finite exactly when no line overflows, that is, when no sum in the plane goes beyond the finite
floats. Then the bounds are finite and ordered, and on a proper surface everything that is drawn has
an image exactly when the extents of the bounds and the scale are finite. -/
theorem isFinite_of_ofText? {strict : Bool} {text : List Char} {t : Toolpath}
    (h : Toolpath.ofText? strict text = .ok t) :
    (∀ s ∈ t.segments, s.start.IsDefined ∧ s.finish.IsDefined) ∧
    ((∀ s ∈ t.segments, s.IsFinite) ↔
      ∀ before raw, before ++ [raw] <+: lines text →
        ∀ u, Toolpath.ofLines? strict before = .ok u → ¬ u.state.Overflows raw) ∧
    ((∀ s ∈ t.segments, s.IsFinite) →
      (∃ b : Bounds ℚ, t.bounds.Denotes b ∧ b.minX ≤ b.maxX ∧ b.minY ≤ b.maxY) ∧
      ∀ (width height : ℤ) (padding : Float) (view : View Float) (m : SurfaceMap Float),
        SurfaceMap.fit? t.bounds (.whole width) (.whole height) (.real padding) view = .ok m →
        m.IsProper →
        ((∀ place, IsDrawn t.segments place → (m.apply place).IsDefined) ↔
          (Exact.ofFloat m.bounds.width).isFinite = true ∧
          (Exact.ofFloat m.bounds.height).isFinite = true ∧
          (Exact.ofFloat m.scale).isFinite = true)) := by
  have hlines : Toolpath.ofLines? strict (lines text) = .ok t := h
  refine ⟨(Toolpath.isDefined_segments hlines).2, Toolpath.isFinite_segments_iff hlines,
    fun hfinite ↦ ⟨Toolpath.exists_denotes_bounds h hfinite, ?_⟩⟩
  intro width height padding view m hm hproper
  obtain ⟨exact, hexact⟩ := exists_forall₂_denotes hfinite
  obtain ⟨x, y, hx, hy, rfl⟩ := SurfaceMap.exists_eq_fit hm
  obtain ⟨hview, ⟨_, hpadding⟩, ⟨_, hroomX⟩, _, hroomY⟩ := hproper
  exact SurfaceMap.isDefined_apply_fit_iff hexact (Toolpath.contains_origin h hexact) hview
    (denotes_of_wholeFloat? hy) hpadding hroomX hroomY

theorem SurfaceMap.isProper_fit_standard (bounds : Bounds Float) :
    (fit bounds 800 600 40 .identity).IsProper where
  view := ⟨⟨1, denotes_ofNat (n := 1) (by norm_num), one_ne_zero⟩, ⟨0, denotes_zero⟩, 0, denotes_zero⟩
  padding := ⟨40, denotes_ofNat (n := 40) (by norm_num)⟩
  roomX := (isFinite_iff_denotes (x := room 800 40)).mp (by decide +kernel)
  roomY := (isFinite_iff_denotes (x := room 600 40)).mp (by decide +kernel)

/-- Two moves by `10³⁰⁸` in one direction. -/
def overflowText : List Char := "G91\nG1 X1e308\nG1 X1e308".toList

/-- Two moves to places that are `2 · 10³⁰⁸` apart. -/
def wideText : List Char := "G1 X1e308\nG1 X-1e308".toList

theorem isFinite_of_ofText?_overflowText :
    (∃ t, Toolpath.ofText? true overflowText = .ok t ∧ (¬ ∀ s ∈ t.segments, s.IsFinite) ∧
      ∃ before raw, before ++ [raw] <+: lines overflowText ∧
        ∃ u, Toolpath.ofLines? true before = .ok u ∧ u.state.Overflows raw) ∧
    ∃ t, Toolpath.ofText? true wideText = .ok t ∧ (∀ s ∈ t.segments, s.IsFinite) ∧
      ∃ m : SurfaceMap Float, m.IsProper ∧
        SurfaceMap.fit? t.bounds (.whole 800) (.whole 600) (.real 40) .identity = .ok m ∧
        ∃ place, IsDrawn t.segments place ∧ ¬ (m.apply place).IsDefined := by
  constructor
  · have hread : (Toolpath.ofText? true overflowText).toOption.any (fun t ↦
        decide (¬ ∀ s ∈ t.segments, s.IsFinite)) = true := by decide +kernel
    cases h : Toolpath.ofText? true overflowText with
    | error e =>
      rw [h] at hread
      cases hread
    | ok t =>
      rw [h] at hread
      have hinfinite := of_decide_eq_true hread
      have hoverflow := mt (isFinite_of_ofText? h).2.1.mpr hinfinite
      push Not at hoverflow
      exact ⟨t, rfl, hinfinite, hoverflow⟩
  · have hread : (Toolpath.ofText? true wideText).toOption.any (fun t ↦
        decide ((∀ s ∈ t.segments, s.IsFinite) ∧
          (Exact.ofFloat t.bounds.width).isFinite = false)) = true := by decide +kernel
    cases h : Toolpath.ofText? true wideText with
    | error e =>
      rw [h] at hread
      cases hread
    | ok t =>
      rw [h] at hread
      obtain ⟨hfinite, hwide⟩ := of_decide_eq_true hread
      have hfit := SurfaceMap.fit?_eq_fit 40 t.bounds .identity
        (wholeFloat?_natCast (n := 800) (by norm_num)) (wholeFloat?_natCast (n := 600) (by norm_num))
      have himages := ((isFinite_of_ofText? h).2.2 hfinite).2 800 600 40 .identity _ hfit
        (SurfaceMap.isProper_fit_standard t.bounds)
      have hmissing := mt himages.mp fun ⟨hfinite, _⟩ ↦
        Bool.false_ne_true (hwide.symm.trans hfinite)
      push Not at hmissing
      exact ⟨t, rfl, hfinite, _, SurfaceMap.isProper_fit_standard t.bounds, hfit, hmissing⟩

end Engraving
