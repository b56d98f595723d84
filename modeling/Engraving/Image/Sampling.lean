import Engraving.Grid

/-!
# Sampling pictures

A picture file is decoded by a library, and its pixels are reduced to gray values.

Pictures are stored in several colour models. Whatever the model, a pixel counts with its luminance
only, a byte. Transparency is left out. Deep samples have sixteen bits of which the upper eight
count, and samples beyond the range are clamped. Floats are kept in single precision.

Of the library nothing is assumed here. It may read any format, and it may fail in any way. There
are failures that it announces, which are told apart from those that it does not.
-/

namespace Engraving

/-- A pixel in the colour model of its picture. -/
inductive Pixel where
  | gray (v : UInt8)
  | light (r g b : UInt8)
  | ink (c m y k : UInt8)
  /-- A sample of sixteen bits or more. -/
  | deep (v : Int)
  | real (x : Float)

namespace Pixel

/-- The luminance of light, in which green counts most and blue least; the weights add up to
`2 ^ 16`. -/
def lightLuminance (r g b : UInt8) : UInt8 :=
  UInt8.ofNat ((19595 * r.toNat + 38470 * g.toNat + 7471 * b.toNat + 32768) / 65536)

/-- The product of two shares of 255, rounded. -/
def shareProduct (a b : UInt8) : Nat :=
  let t := a.toNat * b.toNat + 128
  (t / 256 + t) / 256

/-- The light that is left of white paper under a colour and black. -/
def paper (color black : UInt8) : UInt8 :=
  let light := 255 - black
  UInt8.ofNat (light.toNat - shareProduct color light)

/-- How many bits the significand of a float in a picture has. -/
def realBits : Nat := 24

/-- The gray value of a float, clamped. -/
def realGray (x : Float) : UInt8 :=
  if x ≤ 0 then 0
  else if 255 ≤ x then 255
  else UInt8.ofNat ((Exact.ofFloat x).roundBits realBits).floor.toNat

def luminance : Pixel → UInt8
  | gray v => v
  | light r g b => lightLuminance r g b
  | ink c m y k => lightLuminance (paper c k) (paper m k) (paper y k)
  | deep v => UInt8.ofNat (clamp 0 255 (v.tdiv 256)).toNat
  | real x => realGray x

end Pixel

structure Picture where
  width : Nat
  height : Nat
  /-- The pixel in a column and a row, from the left and from the top. -/
  pixel : Nat → Nat → Pixel

def Picture.grid (p : Picture) : Grid :=
  Grid.tabulate p.width p.height fun x y ↦ (p.pixel x y).luminance

/-- The picture of pixels that are listed row by row. -/
def Picture.ofList (width height : Nat) (pixels : List Pixel) : Picture :=
  let all := pixels.toArray
  ⟨width, height, fun x y ↦ all[y * width + x]?.getD (.gray 0)⟩

inductive PictureError where
  | empty
  | malformed (reason : String)
  | noPixels
  | tooLarge (pixels : Nat)
  /-- The library fails in another way. -/
  | unannounced (message : String)
  deriving DecidableEq, Repr

namespace PictureError

/-- The greatest count of pixels that is decoded. -/
def maxPixels : Nat := 178956970

def message : PictureError → String
  | empty => "Image data is empty"
  | malformed reason => "Failed to decode image: " ++ reason
  | noPixels => "Decoded image has no pixels"
  | tooLarge pixels =>
    "Image size (" ++ toString pixels ++ " pixels) exceeds limit of " ++ toString maxPixels ++
      " pixels, could be decompression bomb DOS attack."
  | unannounced message => message

/-- Whether a failure is known to be one of the bytes, so that it is caught. -/
def isCaught : PictureError → Bool
  | tooLarge _ | unannounced _ => false
  | _ => true

/-- Refuses a picture of too many pixels. -/
def checkSize (width height : Nat) : Except PictureError Unit :=
  if maxPixels < width * height then .error (.tooLarge (width * height)) else .ok ()

end PictureError

/-- A library that decodes picture files. -/
class PictureDecoder where
  picture? (bytes : List UInt8) : Except PictureError Picture

/-- The gray values of a picture file. -/
def sample? [PictureDecoder] (bytes : List UInt8) : Except PictureError Grid := do
  if bytes.isEmpty then throw .empty
  let picture ← PictureDecoder.picture? bytes
  if picture.width = 0 || picture.height = 0 then throw .noPixels
  return picture.grid

end Engraving
