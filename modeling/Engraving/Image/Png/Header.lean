import Engraving.Image.Inflate
import Engraving.Image.Sampling

/-!
# Chunks of PNG files

A PNG file is a list of chunks. What they say about the picture is told before its data are looked
at.
-/

namespace Engraving

/-! ## Chunks of PNG files

A file is a signature and a list of chunks. A chunk has a length, a name, a body of that length, and
a checksum over name and body. Chunks are found by their places in the file, because the file may
break off anywhere.
-/

namespace Png

def signature : List UInt8 := [137, 80, 78, 71, 13, 10, 26, 10]

def refuse {α : Type} (reason : String) : Except PictureError α := .error (.malformed reason)

/-- The natural number in some bytes, the highest first. -/
def word (bytes : List UInt8) : Nat := bytes.foldl (fun n b ↦ n * 256 + b.toNat) 0

/-- Where a chunk lies in a file. -/
structure Chunk where
  name : String
  start : Nat
  /-- How long its body is said to be. -/
  length : Nat

namespace Chunk

/-- Where the checksum after the body begins. -/
def stop (c : Chunk) : Nat := c.start + c.length

/-- Whether the body is data with a number in front of them. -/
def isNumbered (c : Chunk) : Bool := c.name = "fdAT"

def hasData (c : Chunk) : Bool := c.name = "IDAT" || c.name = "DDAT" || c.isNumbered

def dataStart (c : Chunk) : Nat := if c.isNumbered then c.start + 4 else c.start

def next (c : Chunk) : Nat := c.stop + 4

/-- The bytes of a file between two places, as many as there are. -/
def slice (file : ByteArray) (start stop : Nat) : List UInt8 := (file.extract start stop).toList

/-- The body, as much of it as there is. -/
def body (file : ByteArray) (c : Chunk) : List UInt8 := slice file c.start c.stop

def isWhole (file : ByteArray) (c : Chunk) : Bool := c.stop ≤ file.size

/-- The body, if the whole of it is there. -/
def body? (file : ByteArray) (c : Chunk) : Except PictureError (List UInt8) :=
  if c.isWhole file then .ok (c.body file) else refuse "truncated chunk"

/-- A character that may occur in the name of a chunk. -/
def isNameByte (b : UInt8) : Bool := (Char.ofUInt8 b).isAlphanum && b < 128 || b = 95

/-- The chunk that begins at a place, if it has a head. -/
def at? (file : ByteArray) (place : Nat) : Option Chunk :=
  let name := slice file (place + 4) (place + 8)
  if name.length = 4 && name.all isNameByte then
    some ⟨String.ofList (name.map Char.ofUInt8), place + 8, word (slice file place (place + 4))⟩
  else none

def isSound (file : ByteArray) (c : Chunk) : Bool :=
  let sum := slice file c.stop c.next
  sum.length = 4 && word sum = (Checksum.crc (slice file (c.start - 4) c.stop)).toNat

end Chunk

end Png

/-! ## What PNG files say about their pictures

All chunks but those with data say something about the picture. Of that only its size, the form of
its pixels and the palette count here; but a chunk that does not keep to its own form spoils the
file, even where nothing depends on it.

The chunks before the data are guarded by their checksums. Those behind the data are not; they end
with the last chunk, or where no chunk begins.
-/

namespace Png

/-! ### Forms of pixels -/

inductive ColorType where
  /-- One sample, a gray value. -/
  | gray
  | light
  /-- One sample, the number of a colour in the palette. -/
  | palette
  | grayAlpha
  | lightAlpha
  deriving DecidableEq, Repr

namespace ColorType

def ofNat? (n : Nat) : Option ColorType :=
  [(0, gray), (2, light), (3, palette), (4, grayAlpha), (6, lightAlpha)].lookup n

def channels : ColorType → Nat
  | gray | palette => 1
  | grayAlpha => 2
  | light => 3
  | lightAlpha => 4

/-- The depths in which samples may be stored. -/
def depths : ColorType → List Nat
  | gray => [1, 2, 4, 8, 16]
  | palette => [1, 2, 4, 8]
  | _ => [8, 16]

end ColorType

/-- The form of pixels. -/
structure Format where
  depth : Nat
  color : ColorType
  deriving DecidableEq, Repr

namespace Format

/-- The form with the given numbers for depth and colour type. -/
def of? (depth color : Nat) : Option Format :=
  ((ColorType.ofNat? color).filter (·.depths.contains depth)).map (⟨depth, ·⟩)

def pixelBits (f : Format) : Nat := f.color.channels * f.depth

def rowBytes (f : Format) (width : Nat) : Nat := (width * f.pixelBits + 7) / 8

/-- How far the left neighbour of a byte is, for the filters. -/
def filterStep (f : Format) : Nat := (f.pixelBits + 7) / 8

/-- Whether pixels of this form can take their colours from a palette: they have a gray value of
eight bits or are numbers of colours. -/
def takesPalette (f : Format) : Bool :=
  match f.color with
  | .palette => true
  | .gray => f.depth ≠ 1 && f.depth ≠ 16
  | .grayAlpha => f.depth = 8
  | _ => false

end Format

/-! ### What chunks say -/

/-- A part of a picture. -/
structure Region where
  column : Nat
  row : Nat
  width : Nat
  height : Nat

/-- What was said about a picture so far. -/
structure Header where
  width : Nat := 0
  height : Nat := 0
  /-- The form of pixels, once a known one was given. -/
  format? : Option Format := none
  interlaced : Bool := false
  /-- The colours, three bytes each. -/
  palette? : Option (List UInt8) := none
  /-- How many pictures there are, in a file with several of them. -/
  frames? : Option Nat := none
  /-- The number of the last chunk that belongs to one of several pictures. -/
  sequence? : Option Nat := none
  /-- The place of one of several pictures. -/
  region? : Option Region := none

namespace Header

/-- A condition that a chunk has to meet. -/
def demand (condition : Bool) : Except PictureError Unit :=
  if condition then .ok () else refuse "broken chunk"

/-- Size, form and interlacing. A form that is not known leaves the one that was given before, and
what is interlaced stays so. -/
def readSize? (h : Header) (body : List UInt8) : Except PictureError Header :=
  match body with
  | w₃ :: w₂ :: w₁ :: w₀ :: h₃ :: h₂ :: h₁ :: h₀ ::
      depth :: color :: _ :: filter :: interlace :: _ => do
    demand (filter = 0)
    .ok { h with
      width := word [w₃, w₂, w₁, w₀]
      height := word [h₃, h₂, h₁, h₀]
      format? := (Format.of? depth.toNat color.toNat).orElse fun () ↦ h.format?
      interlaced := h.interlaced || interlace ≠ 0 }
  | _ => refuse "truncated header"

/-- How many bytes say which colour is transparent. -/
def transparencyLength (h : Header) : Nat :=
  match h.format?.map Format.color with
  | some .gray => 2
  | some .light => 6
  | _ => 0

/-- The greatest length of a compressed text. -/
def maxTextLength : Nat := 1048576

/-- Looks at a compressed text. What is wrong with it does not count, but its length does. -/
def demandText (compressed : List UInt8) : Except PictureError Unit :=
  match (Inflater.run ⟨compressed.toArray⟩ maxTextLength fun _ ↦ maxTextLength).1 with
  | .error .full => refuse "text too long"
  | _ => .ok ()

/-- What follows the first null byte, if there is one. -/
def afterNull? (bytes : List UInt8) : Option (List UInt8) :=
  match bytes.dropWhile (· ≠ 0) with
  | [] => none
  | _ :: rest => some rest

/-- Looks at a colour profile: a name, the method of compression, and a compressed text. -/
def demandProfile (body : List UInt8) : Except PictureError Unit :=
  match afterNull? body with
  | some (method :: rest) => do
    demand (method = 0)
    demandText rest
  | _ => refuse "broken profile"

/-- Looks at a compressed text after its key. The method of compression may be missing together
with the text. -/
def demandZippedText (body : List UInt8) : Except PictureError Unit :=
  match afterNull? body with
  | some (method :: rest) => do
    demand (method = 0)
    demandText rest
  | _ => demandText []

/-- Looks at a text in some language: a key, whether and how it is compressed, two names, and the
text. One that is not like this does not count. -/
def demandNamedText (body : List UInt8) : Except PictureError Unit :=
  match afterNull? body with
  | some (isCompressed :: method :: rest) =>
    match (afterNull? rest).bind afterNull? with
    | some text => if isCompressed ≠ 0 && method = 0 then demandText text else .ok ()
    | none => .ok ()
  | _ => .ok ()

/-- The number of pictures; a second one, and numbers that cannot be, mean that there is one. -/
def readFrames? (h : Header) (body : List UInt8) : Except PictureError Header := do
  demand (8 ≤ body.length)
  let count := word (body.take 4)
  if h.frames?.isSome then .ok { h with frames? := none }
  else if count = 0 || 0x80000000 < count then .ok h
  else .ok { h with frames? := some count }

/-- The number of a chunk among those that belong to one of several pictures. They are numbered
from zero on. -/
def readSequence? (h : Header) (body : List UInt8) : Except PictureError Header := do
  let number := word (body.take 4)
  demand (number = (h.sequence?.map (· + 1)).getD 0)
  .ok { h with sequence? := some number }

/-- The place of one of several pictures, which lies within the whole. -/
def readFrame? (h : Header) (body : List UInt8) : Except PictureError Header := do
  demand (26 ≤ body.length)
  let field (i : Nat) := word ((body.drop (4 * i)).take 4)
  let h ← h.readSequence? body
  demand (field 3 + field 1 ≤ h.width && field 4 + field 2 ≤ h.height)
  .ok { h with region? := some ⟨field 3, field 4, field 1, field 2⟩ }

def read? (h : Header) (name : String) (body : List UInt8) : Except PictureError Header :=
  let given (condition : Except PictureError Unit) : Except PictureError Header :=
    condition.map fun () ↦ h
  match name with
  | "IHDR" => h.readSize? body
  | "PLTE" =>
    .ok (if h.format?.any (·.color = .palette) then { h with palette? := some body } else h)
  | "tRNS" => given (demand (h.transparencyLength ≤ body.length))
  | "gAMA" => given (demand (4 ≤ body.length))
  | "cHRM" => given (demand (body.length % 4 = 0))
  | "sRGB" => given (demand (1 ≤ body.length))
  | "pHYs" => given (demand (9 ≤ body.length))
  | "iCCP" => given (demandProfile body)
  | "zTXt" => given (demandZippedText body)
  | "iTXt" => given (demandNamedText body)
  | "acTL" => h.readFrames? body
  | "fcTL" => h.readFrame? body
  | "fdAT" => do
    demand (4 ≤ body.length && h.sequence?.isSome)
    h.readSequence? body
  | _ => .ok h

/-! ### Before and behind the data -/

/-- Takes up a chunk of data as far as it has a number. -/
def readData? (h : Header) (file : ByteArray) (c : Chunk) : Except PictureError Header :=
  if c.isNumbered then h.read? c.name (c.body file) else .ok h

/-- Reads the chunks before the data; returns the chunk that ends them as well. Data whose form is
not known are passed over. -/
def before? (file : ByteArray) : Nat → Nat → Header → Except PictureError (Header × Chunk)
  | 0, _, _ => refuse "broken chunk"
  | fuel + 1, place, h =>
    match Chunk.at? file place with
    | none => refuse "broken chunk"
    | some c =>
      if (c.name = "IDAT" && h.format?.isSome) || c.name = "IEND" then .ok (h, c)
      else if c.isNumbered then do
        demand h.format?.isSome
        .ok (← h.readData? file c, c)
      else do
        let h ← h.read? c.name (← c.body? file)
        if c.isSound file then before? file fuel c.next h else refuse "bad checksum"

/-- Reads the numbers of the data behind a chunk, up to the last of them. -/
def throughData? (file : ByteArray) (last : Chunk) :
    Nat → Chunk → Header → Except PictureError Header
  | 0, _, h => .ok h
  | fuel + 1, c, h =>
    if c.start = last.start then .ok h
    else
      match Chunk.at? file c.next with
      | none => .ok h
      | some c => do throughData? file last fuel c (← h.readData? file c)

/-- Whether there are several pictures. -/
def isAnimated (h : Header) : Bool :=
  h.frames?.any fun frames ↦ 1 < frames || h.sequence?.isNone

/-- Looks at the chunks behind the data, up to those of another picture. -/
def demandRest (file : ByteArray) (several : Bool) :
    Nat → Nat → Header → Except PictureError Unit
  | 0, _, _ => .ok ()
  | fuel + 1, place, h =>
    match Chunk.at? file place with
    | none => .ok ()
    | some c =>
      if c.name = "IEND" || (c.name = "fcTL" && several) then .ok ()
      else do demandRest file several fuel c.next (← h.read? c.name (← c.body? file))

end Header

end Png

end Engraving
