import Engraving.Proofs.Except
import Engraving.Proofs.Number.FloatOrder
import Engraving.Proofs.Toolpath.Invariant
import Engraving.Proofs.Toolpath.LeastRectangle

/-!
# Exact paths

Segments with finite coordinates stand for segments between rational places. Taking the bounds of
segments only compares coordinates, and finite floats are compared by their values, so the bounds
of the floats are, exactly, the bounds of the places.
-/

namespace Engraving

/-! ## Places, segments and rectangles of floats -/

/-- Both coordinates are finite floats. -/
def Point.IsFinite (p : Point Float) : Prop :=
  (Exact.ofFloat p.x).isFinite = true ∧ (Exact.ofFloat p.y).isFinite = true

def Segment.IsFinite (s : Segment Float) : Prop := s.start.IsFinite ∧ s.finish.IsFinite

instance (p : Point Float) : Decidable p.IsFinite := inferInstanceAs (Decidable (_ ∧ _))

instance (s : Segment Float) : Decidable s.IsFinite := inferInstanceAs (Decidable (_ ∧ _))

/-- The floats of `p` are finite, and `q` is the place that they tell. -/
structure Point.Denotes (p : Point Float) (q : Point ℚ) : Prop where
  x : Engraving.Denotes p.x q.x
  y : Engraving.Denotes p.y q.y

/-- The floats of `s` are finite, and `t` is the segment that they tell. -/
structure Segment.Denotes (s : Segment Float) (t : Segment ℚ) : Prop where
  start : s.start.Denotes t.start
  finish : s.finish.Denotes t.finish
  rapid : t.rapid = s.rapid

/-- The floats of `b` are finite, and `c` is the rectangle that they tell. -/
structure Bounds.Denotes (b : Bounds Float) (c : Bounds ℚ) : Prop where
  minX : Engraving.Denotes b.minX c.minX
  maxX : Engraving.Denotes b.maxX c.maxX
  minY : Engraving.Denotes b.minY c.minY
  maxY : Engraving.Denotes b.maxY c.maxY

theorem Point.denotes_origin : (⟨0, 0⟩ : Point Float).Denotes ⟨0, 0⟩ := ⟨denotes_zero, denotes_zero⟩

theorem Point.Denotes.unique {p : Point Float} {q r : Point ℚ} (hq : p.Denotes q)
    (hr : p.Denotes r) : q = r := by
  rw [Point.mk.injEq]
  exact ⟨hq.x.unique hr.x, hq.y.unique hr.y⟩

theorem Point.isFinite_iff_denotes {p : Point Float} : p.IsFinite ↔ ∃ q, p.Denotes q := by
  rw [IsFinite, Engraving.isFinite_iff_denotes, Engraving.isFinite_iff_denotes]
  constructor
  · rintro ⟨⟨x, hx⟩, y, hy⟩
    exact ⟨⟨x, y⟩, hx, hy⟩
  · rintro ⟨q, hx, hy⟩
    exact ⟨⟨q.x, hx⟩, q.y, hy⟩

theorem Segment.isFinite_iff_denotes {s : Segment Float} : s.IsFinite ↔ ∃ t, s.Denotes t := by
  rw [IsFinite, Point.isFinite_iff_denotes, Point.isFinite_iff_denotes]
  constructor
  · rintro ⟨⟨start, hstart⟩, finish, hfinish⟩
    exact ⟨⟨start, finish, s.rapid⟩, hstart, hfinish, rfl⟩
  · rintro ⟨t, hstart, hfinish, -⟩
    exact ⟨⟨t.start, hstart⟩, t.finish, hfinish⟩

theorem exists_forall₂_denotes {segments : List (Segment Float)}
    (h : ∀ s ∈ segments, s.IsFinite) :
    ∃ exact : List (Segment ℚ), List.Forall₂ Segment.Denotes segments exact := by
  induction segments with
  | nil => exact ⟨[], .nil⟩
  | cons s rest ih =>
    obtain ⟨hs, hrest⟩ := List.forall_mem_cons.mp h
    obtain ⟨t, ht⟩ := Segment.isFinite_iff_denotes.mp hs
    obtain ⟨exact, hexact⟩ := ih hrest
    exact ⟨t :: exact, .cons ht hexact⟩

/-! ## Bounds -/

namespace Bounds

variable {b : Bounds Float} {c : Bounds ℚ}

theorem Denotes.single {p : Point Float} {q : Point ℚ} (h : p.Denotes q) :
    (Bounds.single p).Denotes (Bounds.single q) := ⟨h.x, h.x, h.y, h.y⟩

theorem Denotes.extend (hb : b.Denotes c) {p : Point Float} {q : Point ℚ} (h : p.Denotes q) :
    (b.extend p).Denotes (c.extend q) where
  minX := hb.minX.lesser h.x
  maxX := hb.maxX.greater h.x
  minY := hb.minY.lesser h.y
  maxY := hb.maxY.greater h.y

theorem Denotes.foldl_extend (hb : b.Denotes c) {points : List (Point Float)}
    {exact : List (Point ℚ)} (h : List.Forall₂ Point.Denotes points exact) :
    (points.foldl Bounds.extend b).Denotes (exact.foldl Bounds.extend c) := by
  induction h generalizing b c with
  | nil => exact hb
  | cons hp _ ih => exact ih (hb.extend hp)

theorem denotes_standard : (standard : Bounds Float).Denotes standard := by
  have hhundred : Engraving.Denotes (Float.ofNat 100) 100 := denotes_ofNat (n := 100) (by norm_num)
  exact ⟨denotes_zero, hhundred, denotes_zero, hhundred⟩

theorem forall₂_denotes_ends {segments : List (Segment Float)} {exact : List (Segment ℚ)}
    (h : List.Forall₂ Segment.Denotes segments exact) :
    List.Forall₂ Point.Denotes (segments.flatMap fun s ↦ [s.start, s.finish])
      (exact.flatMap fun s ↦ [s.start, s.finish]) := by
  induction h with
  | nil => exact .nil
  | cons hs _ ih => exact .cons hs.start (.cons hs.finish ih)

/-- The bounds of the floats tell the bounds of the places. -/
theorem denotes_ofSegments {segments : List (Segment Float)} {exact : List (Segment ℚ)}
    (h : List.Forall₂ Segment.Denotes segments exact) :
    (ofSegments segments).Denotes (ofSegments exact) := by
  have hends := forall₂_denotes_ends h
  rw [ofSegments, ofSegments]
  generalize (segments.flatMap fun s ↦ [s.start, s.finish]) = points at hends
  generalize (exact.flatMap fun s ↦ [s.start, s.finish]) = places at hends
  cases hends with
  | nil => exact denotes_standard
  | cons hp hrest => exact (Denotes.single hp).foldl_extend hrest

/-! ## The bounds of a path -/

variable {segments : List (Segment ℚ)}

theorem contains_of_mem_points {points : List (Point ℚ)} {p : Point ℚ} (hp : p ∈ points) :
    ((ofPoints? points).getD standard).contains p = true := by
  match points with
  | _ :: _ => exact (encloses_iff_of_ofPoints? rfl).mp (Encloses.refl _) p hp

theorem contains_of_mem {s : Segment ℚ} (hs : s ∈ segments) :
    (ofSegments segments).contains s.start = true ∧
      (ofSegments segments).contains s.finish = true := by
  have hend {p : Point ℚ} (hp : p ∈ [s.start, s.finish]) :
      (ofSegments segments).contains p = true :=
    contains_of_mem_points (List.mem_flatMap.mpr ⟨s, hs, hp⟩)
  exact ⟨hend List.mem_cons_self, hend (List.mem_cons_of_mem _ List.mem_cons_self)⟩

end Bounds

namespace Toolpath

/-- A path that begins at the origin has the origin in its bounds, as has the standard rectangle. -/
theorem contains_origin {strict : Bool} {text : List Char} {t : Toolpath}
    (h : ofText? strict text = .ok t) {exact : List (Segment ℚ)}
    (hexact : List.Forall₂ Segment.Denotes t.segments exact) :
    (Bounds.ofSegments exact).contains ⟨0, 0⟩ = true := by
  have htraces : t.Traces (lines text) := traces_of_ofLines? h
  have hpath := htraces.path
  generalize t.segments = segments at hexact hpath
  cases hexact with
  | nil => decide
  | @cons _ first _ rest hs _ =>
    have hstart := hs.start
    rw [hpath.1] at hstart
    rw [← hstart.unique Point.denotes_origin]
    exact (Bounds.contains_of_mem List.mem_cons_self).1

end Toolpath

end Engraving
