import Engraving.Toolpath.Reading

/-!
# Toolpaths on surfaces

A toolpath is scaled onto a surface, and drawn there as an outline, two collections of segments and
a mark on the origin.
-/

namespace Engraving

/-! ## Fitting a toolpath onto a surface

A surface is measured in pixels, to the right and downwards. The bounds of a toolpath are scaled by
one factor for both axes so that they fill the surface up to a padding on all sides; what is flat
along an axis does not limit the scale. After that the view is zoomed and panned.

A place is mapped either directly or by the coefficients of an affine map. Both are given, because
the outline is drawn by the one and everything else by the other.
-/

section

/-- Zoom and pan, in effect after fitting. -/
structure View (α : Type) where
  zoom : α
  panX : α
  panY : α
  deriving Repr

/-- The coefficients of `x' = a x + b y + offsetX`, `y' = d x + e y + offsetY`. -/
structure AffineMap (α : Type) where
  /-- What `x` adds to `x'`, per unit. -/
  a : α
  /-- What `y` adds to `x'`, per unit. -/
  b : α
  /-- What `x` adds to `y'`, per unit. -/
  d : α
  /-- What `y` adds to `y'`, per unit. -/
  e : α
  offsetX : α
  offsetY : α
  deriving Repr

/-- How machine places are put onto a surface. -/
structure SurfaceMap (α : Type) where
  bounds : Bounds α
  width : α
  height : α
  padding : α
  /-- Pixels per millimetre. -/
  scale : α
  view : View α
  deriving Repr

variable {α : Type} [Scalar α]

/-- Neither zoom nor pan. -/
def View.identity : View α := ⟨Scalar.ofNat 1, Scalar.ofNat 0, Scalar.ofNat 0⟩

def AffineMap.apply (m : AffineMap α) (p : Point α) : Point α :=
  ⟨m.a * p.x + m.b * p.y + m.offsetX, m.d * p.x + m.e * p.y + m.offsetY⟩

namespace SurfaceMap

/-- What is left of a side between its paddings, one pixel at least. -/
def room (side padding : α) : α := Scalar.greater (side - padding * Scalar.ofNat 2) (Scalar.ofNat 1)

/-- The scale at which an extent fills a room; a flat extent fills it at any. -/
def scaleOf (room extent : α) : α :=
  if Scalar.ofNat 0 < extent then room / extent else Scalar.ofNat 1

def fit (bounds : Bounds α) (width height padding : α) (view : View α) : SurfaceMap α where
  bounds
  width
  height
  padding
  scale := Scalar.lesser (scaleOf (room width padding) bounds.width)
    (scaleOf (room height padding) bounds.height)
  view

def affine (m : SurfaceMap α) : AffineMap α where
  a := m.scale * m.view.zoom
  b := Scalar.ofNat 0
  d := Scalar.ofNat 0
  e := -m.scale * m.view.zoom
  offsetX := m.view.zoom * (m.padding - m.bounds.minX * m.scale) + m.view.panX
  offsetY := m.view.zoom * (m.height - m.padding + m.bounds.minY * m.scale) + m.view.panY

/-- Where a machine place lies on the surface. -/
def apply (m : SurfaceMap α) (p : Point α) : Point α :=
  let x := (p.x - m.bounds.minX) * m.scale + m.padding
  let y := m.height - ((p.y - m.bounds.minY) * m.scale + m.padding)
  ⟨x * m.view.zoom + m.view.panX, y * m.view.zoom + m.view.panY⟩

/-! ### Sizes given as quantities -/

/-- The room on a side, computed on the numbers as they are given. -/
def room? (side padding : Quantity) : Except NumberError Quantity := do
  let room ← side.sub (← padding.mul (.whole 2))
  return match room with
    | .whole n => if n < 1 then .real 1 else .whole n
    | .real x => .real (Scalar.greater x 1)

/-- The scale at which an extent fills a room that is not a float yet. -/
def scaleOf? (room : Quantity) (extent : Float) : Except NumberError Float :=
  if 0 < extent then return scaleOf (← room.toFloat?) extent else return scaleOf 1 extent

/-- Fits bounds onto a surface whose sizes may be integers. -/
def fit? (bounds : Bounds Float) (width height padding : Quantity) (view : View Float) :
    Except NumberError (SurfaceMap Float) := do
  let scaleX ← scaleOf? (← room? width padding) bounds.width
  let scaleY ← scaleOf? (← room? height padding) bounds.height
  return {
    bounds
    width := ← width.toFloat?
    height := ← height.toFloat?
    padding := ← padding.toFloat?
    scale := Scalar.lesser scaleX scaleY
    view }

end SurfaceMap

end

/-! ## Drawing a toolpath

On the surface there are the outline of the bounds, the segments in two collections, and a mark on
the origin of the machine. The outline is a closed ring; when the bounds have no width its first
and last corner are the same place already.
-/

section

/-- What is drawn of a toolpath, in places of the surface. -/
structure Drawing (α : Type) where
  /-- The corners of the bounds, along the ring. -/
  outline : List (Point α)
  rapid : List (Point α × Point α)
  feed : List (Point α × Point α)
  origin : Point α
  deriving Repr

variable {α : Type} [Scalar α]

/-- The corners of a rectangle along a closed ring. -/
def Bounds.ring (b : Bounds α) : List (Point α) :=
  let corners : List (Point α) :=
    [⟨b.maxX, b.minY⟩, ⟨b.maxX, b.maxY⟩, ⟨b.minX, b.maxY⟩, ⟨b.minX, b.minY⟩]
  if b.minX ≤ b.maxX ∧ b.maxX ≤ b.minX then corners
  else corners ++ [⟨b.maxX, b.minY⟩]

namespace SurfaceMap

/-- Both ends of a segment on the surface. -/
def line (m : SurfaceMap α) (s : Segment α) : Point α × Point α :=
  (m.apply s.start, m.apply s.finish)

/-- Draws some segments with their bounds. -/
def draw (m : SurfaceMap α) (segments : List (Segment α)) : Drawing α where
  outline := m.bounds.ring.map m.affine.apply
  rapid := (segments.filter Segment.rapid).map m.line
  feed := (segments.filter fun s ↦ !s.rapid).map m.line
  origin := m.apply ⟨Scalar.ofNat 0, Scalar.ofNat 0⟩

end SurfaceMap

end

end Engraving
