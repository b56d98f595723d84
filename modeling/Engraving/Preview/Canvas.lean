import Engraving.Image.Png
import Engraving.Preview.Figure

/-!
# Pictures of figures

A figure is painted onto pixels, and these are written as a PNG file.
-/

namespace Engraving

/-! ## Writing PNG files

A picture is written with eight bits per sample, without filters and without compression: the data
stream consists of plain blocks. So a file takes a little more space than its pixels, and every
decoder reads it.
-/

namespace Png

/-- A natural number in so many bytes, the highest first. -/
def wordBytes (count n : Nat) : List UInt8 :=
  (List.range count).map fun i ↦ UInt8.ofNat (n / Nat.pow 256 (count - 1 - i))

/-- A chunk with its length and its checksum. -/
def chunkBytes (name : String) (body : List UInt8) : List UInt8 :=
  let guarded := name.toUTF8.toList ++ body
  wordBytes 4 body.length ++ guarded ++ wordBytes 4 (Checksum.crc guarded).toNat

/-- The most bytes that a plain block can hold. -/
def maxBlock : Nat := 65535

/-- A natural number in two bytes, the lowest first. -/
def pairBytes (n : Nat) : List UInt8 := [UInt8.ofNat n, UInt8.ofNat (n / 256)]

/-- Plain blocks with some bytes, the last of them marked. -/
def plainBlocks (bytes : List UInt8) : List UInt8 :=
  if maxBlock < bytes.length then
    0 :: (pairBytes maxBlock ++ pairBytes 0 ++ bytes.take maxBlock) ++
      plainBlocks (bytes.drop maxBlock)
  else 1 :: (pairBytes bytes.length ++ pairBytes (maxBlock - bytes.length) ++ bytes)
termination_by bytes.length
decreasing_by simp only [List.length_drop, maxBlock] at *; omega

def plainStream (bytes : List UInt8) : List UInt8 :=
  [0x78, 0x01] ++ plainBlocks bytes ++ wordBytes 4 (Checksum.running bytes).toNat

/-- The number of a colour type whose samples are written. -/
def colorNumber (channels : Nat) : UInt8 := if channels = 1 then 0 else 2

/-- The file of a picture whose rows are given by the samples of their pixels, one or three each. -/
def encode (channels width : Nat) (rows : List (List UInt8)) : List UInt8 :=
  signature ++
    chunkBytes "IHDR" (wordBytes 4 width ++ wordBytes 4 rows.length ++
      [8, colorNumber channels, 0, 0, 0]) ++
    chunkBytes "IDAT" (plainStream (rows.flatMap (0 :: ·))) ++
    chunkBytes "IEND" []

/-- The file of a grid of gray values. -/
def ofGrid (g : Grid) : List UInt8 := encode 1 g.width.toNat g.rows

end Png

/-! ## Painting figures

A figure is painted onto white pixels, one for every pixel of the surface: the outline, then the
moves without the beam, then the others, then the mark on the origin. A line is painted by a square
brush that is carried from end to end in steps of at most a pixel.
-/

/-- Pixels to paint on. -/
structure Canvas where
  width : Nat
  height : Nat
  /-- Three bytes for each pixel, row by row. -/
  samples : ByteArray

namespace Canvas

def blank (width height : Nat) : Canvas :=
  ⟨width, height, ⟨Array.replicate (3 * width * height) 255⟩⟩

def dot (c : Canvas) (color : Color) (x y : Int) : Canvas :=
  if 0 ≤ x && x < c.width && 0 ≤ y && y < c.height then
    let i := 3 * (y.toNat * c.width + x.toNat)
    { c with samples :=
      ((c.samples.set! i color.red).set! (i + 1) color.green).set! (i + 2) color.blue }
  else c

/-- Paints a square of `size` pixels around a place. -/
def square (c : Canvas) (color : Color) (size : Nat) (p : Point Float) : Canvas :=
  match (Exact.ofFloat p.x).nearest?, (Exact.ofFloat p.y).nearest? with
  | .ok x, .ok y =>
    let shifts := (List.range size).map fun i : Nat ↦ (i : Int) - (size / 2 : Nat)
    shifts.foldl (fun c down ↦ shifts.foldl (fun c right ↦
      c.dot color (x + right) (y + down)) c) c
  | _, _ => c

/-- How many steps the brush makes from one place to another, in a canvas of such a size. -/
def stepCount (c : Canvas) (p q : Point Float) : Nat :=
  let far := Scalar.greater (q.x - p.x).abs (q.y - p.y).abs
  match (Exact.ofFloat far).nearest? with
  | .ok n => min (n.toNat + 1) (4 * (c.width + c.height) + 1)
  | .error _ => 0

/-- Paints a line with a brush of `size` pixels. -/
def line (c : Canvas) (color : Color) (size : Nat) (p q : Point Float) : Canvas :=
  let count := c.stepCount p q
  (List.range (count + 1)).foldl (fun c i ↦
    let share := Float.ofNat i / Float.ofNat (max count 1)
    c.square color size ⟨p.x + (q.x - p.x) * share, p.y + (q.y - p.y) * share⟩) c

/-- Paints lines from each place to the next. -/
def lines (c : Canvas) (color : Color) (size : Nat) (places : List (Point Float)) : Canvas :=
  (places.zip (places.drop 1)).foldl (fun c (p, q) ↦ c.line color size p q) c

def rows (c : Canvas) : List (List UInt8) :=
  (List.range c.height).map fun y ↦
    (c.samples.extract (3 * c.width * y) (3 * c.width * (y + 1))).toList

end Canvas

namespace Figure

/-- How many pixels wide a line is whose width is given in points, of which an inch has 72. -/
def brush (f : Figure) (points : Float) : Nat :=
  match (Exact.ofFloat (points * f.resolution / 72)).nearest? with
  | .ok n => max 1 (min n.toNat (f.width + f.height))
  | .error _ => 1

def paint (f : Figure) : Canvas :=
  let segments (c : Canvas) (color : Color) (points : Float)
      (segments : List (Point Float × Point Float)) : Canvas :=
    segments.foldl (fun c (p, q) ↦ c.line color (f.brush points) p q) c
  let c := Canvas.blank f.width f.height
  let c := c.lines f.outlineColor (f.brush outlineWidth) f.drawing.outline
  let c := segments c f.rapidColor f.style.rapidWidth f.drawing.rapid
  let c := segments c f.feedColor f.style.feedWidth f.drawing.feed
  c.square f.originColor (f.brush originSize) f.drawing.origin

def png (f : Figure) : List UInt8 := Png.encode 3 f.width f.paint.rows

end Figure

end Engraving
