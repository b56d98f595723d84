import Engraving.Preview.Style
import Engraving.Preview.Surface
import Engraving.Text.Quoted
import Engraving.Toolpath.Reading

/-!
# Preview figures

A figure is a drawing on a sheet of paper whose size follows from the size of the surface in pixels
and the resolution. Its axes count surface pixels, with zero at the upper left corner.

The outline is made by a library for geometry, which may object to places that are no numbers. They
arise where finite coordinates lie so close together that the scale is infinite.
-/

namespace Engraving

/-- A preview of a toolpath. -/
structure Figure where
  /-- The width of the sheet, in inches. -/
  sheetWidth : Float
  sheetHeight : Float
  /-- The width of the surface, in pixels. -/
  surfaceWidth : Float
  surfaceHeight : Float
  style : PreviewStyle
  outlineColor : Color
  rapidColor : Color
  feedColor : Color
  originColor : Color
  drawing : Drawing Float

inductive FigureError where
  /-- A size is no float, or the resolution is zero. -/
  | number (error : NumberError)
  /-- The sheet would have a negative or an infinite size. -/
  | sheet (width height : Float)
  /-- What the outline or the mark on the origin is to be drawn in is no colour. -/
  | shapeColor (text : String)
  | lineColor (text : String)

namespace FigureError

def colorTexts : String :=
  "(r, g, b) and (r, g, b, a) 0-1 float tuples; '#rrggbb', '#rrggbbaa', '#rgb', '#rgba' strings; " ++
  "named color strings; string reprs of 0-1 floats for grayscale values; " ++
  "'C0', 'C1', ... strings for colors of the color cycle; " ++
  "and pairs combining one of the above with an alpha value"

def message : FigureError → String
  | number error => error.message
  | sheet width height =>
    "figure size must be positive finite not (" ++ shortestText width ++ ", " ++
      shortestText height ++ ")"
  | shapeColor text =>
    quoted text ++ " is not a valid value for color: supported inputs are " ++ colorTexts
  | lineColor text => quoted text ++ " is not a valid color value."

end FigureError

/-- A library that makes rings of points. -/
class RingMaker where
  objection? (points : List (Point Float)) : Option String

namespace Figure

def label : String := "Origin (0,0)"

/-- The diameter of the mark on the origin. -/
def originSize : Float := 6

def outlineWidth : Float := 1

/-- Whether a sheet can have a side of this length. -/
def isSide (length : Float) : Bool := 0 ≤ length && (Exact.ofFloat length).isFinite

/-- The sizes of the sheet for a surface. -/
def sheet? (width height : Int) (dpi : Quantity) : Except FigureError (Float × Float) := do
  let side (pixels : Int) : Except NumberError Float := do
    (← Quantity.div (.whole pixels) dpi).toFloat?
  let across ← (side width).mapError .number
  let down ← (side height).mapError .number
  if isSide across && isSide down then .ok (across, down) else .error (.sheet across down)

/-- The colour that a text stands for. -/
def color? (error : String → FigureError) (text : String) : Except FigureError Color :=
  match Color.read? text with
  | some color => .ok color
  | none => .error (error text)

/-- Draws segments on a surface of so many pixels. -/
def ofSegments? (segments : List (Segment Float)) (bounds : Bounds Float) (width height : Int)
    (style : PreviewStyle) (view : View Float) : Except FigureError Figure := do
  let surface ←
    (SurfaceMap.fit? bounds (.whole width) (.whole height) style.padding view).mapError .number
  let (sheetWidth, sheetHeight) ← sheet? width height style.dpi
  let outlineColor ← color? .shapeColor style.boundsColor
  let rapidColor ← color? .lineColor style.rapidColor
  let feedColor ← color? .lineColor style.feedColor
  let originColor ← color? .shapeColor style.originColor
  .ok {
    sheetWidth
    sheetHeight
    surfaceWidth := surface.width
    surfaceHeight := surface.height
    style
    outlineColor
    rapidColor
    feedColor
    originColor
    drawing := surface.draw segments }

def ofToolpath? (path : Toolpath) (width height : Int) (style : PreviewStyle) (view : View Float) :
    Except FigureError Figure :=
  ofSegments? path.segments path.bounds width height style view

/-- Refuses a figure whose outline is not made. -/
def checkOutline? [RingMaker] (f : Figure) : Except String Unit :=
  match RingMaker.objection? f.drawing.outline with
  | some objection => .error objection
  | none => .ok ()

/-! ## What is told of a figure -/

def resolution (f : Figure) : Float := f.style.dpi.toFloat?.toOption.getD 0

/-- How many whole pixels a side of the sheet has. -/
def pixels (f : Figure) (side : Float) : Nat := (Exact.ofFloat (side * f.resolution)).floor.toNat

/-- The width of a picture of the figure, in pixels. -/
def width (f : Figure) : Nat := f.pixels f.sheetWidth

/-- The height of a picture of the figure, in pixels. -/
def height (f : Figure) : Nat := f.pixels f.sheetHeight

/-- The ends of lines as they are listed: a zero has no sign, and an end that lies nowhere is left
out. -/
def listed (lines : List (Point Float × Point Float)) : List (List (Point Float)) :=
  let isFinite (x : Float) := (Exact.ofFloat x).isFinite
  lines.map fun (p, q) ↦
    ([p, q].filter fun p ↦ isFinite p.x && isFinite p.y).map fun p ↦ ⟨p.x + 0, p.y + 0⟩

end Figure

end Engraving
