import Engraving.Image.Sampling
import Engraving.Number.Reading

/-!
# Portable bitmaps, graymaps and pixmaps

Six formats share one head: a magic number, the width, the height and, unless pixels are single
bits, the greatest sample, as tokens between blanks and comments. In three of the formats the
samples are tokens too; in the other three they are bytes, and what follows them is ignored. Samples
are scaled to the range of a byte, or of two bytes for graymaps with more than 256 values.
-/

namespace Engraving.Portable

def refuse {α : Type} (reason : String) : Except PictureError α := .error (.malformed reason)

def isSpace (b : UInt8) : Bool := b = 32 || (9 ≤ b && b ≤ 13)

def endsComment (b : UInt8) : Bool := b = 10 || b = 13

def afterComment (bytes : List UInt8) : List UInt8 := (bytes.dropWhile (!endsComment ·)).drop 1

theorem length_afterComment (bytes : List UInt8) : (afterComment bytes).length ≤ bytes.length := by
  have := (List.dropWhile_suffix (l := bytes) (!endsComment ·)).length_le
  simp only [afterComment, List.length_drop]
  omega

/-! ## The head -/

/-- What pixels are. -/
inductive Kind where
  | bit
  | gray
  | light
  deriving DecidableEq, Repr

/-- What is said about a picture before its samples. -/
structure Header where
  kind : Kind
  /-- Whether samples are tokens. -/
  plain : Bool
  width : Nat
  height : Nat
  /-- The greatest sample. -/
  greatest : Nat

/-- The magic number, of six bytes at most, and what follows it and one blank. -/
def magic : Nat → List UInt8 → List UInt8 × List UInt8
  | 0, bytes => ([], bytes)
  | _ + 1, [] => ([], [])
  | n + 1, b :: rest =>
    if isSpace b then ([], rest)
    else
      let (name, after) := magic n rest
      (b :: name, after)

/-- The format of a magic number, and whether its samples are tokens. -/
def format? (name : List UInt8) : Option (Kind × Bool) :=
  [([80, 49], (.bit, true)), ([80, 50], (.gray, true)), ([80, 51], (.light, true)),
    ([80, 52], (.bit, false)), ([80, 53], (.gray, false)), ([80, 54], (.light, false))].lookup name

def maxToken : Nat := 10

/-- The next token, after the bytes `token` of it, which are reversed. One blank after it is used
up, and a comment within it does not end it. -/
def tokenFrom (token : List UInt8) (bytes : List UInt8) : List UInt8 × List UInt8 :=
  match bytes with
  | [] => (token.reverse, [])
  | b :: rest =>
    if maxToken < token.length then (token.reverse, b :: rest)
    else if isSpace b then
      if token.isEmpty then tokenFrom token rest else (token.reverse, rest)
    else if b = 35 then tokenFrom token (afterComment rest)
    else tokenFrom (b :: token) rest
termination_by bytes.length
decreasing_by
  · simp
  · have := length_afterComment rest
    simp only [List.length_cons]
    omega
  · simp

/-- A byte as a character; what is not ASCII belongs to no number. -/
def charOf (b : UInt8) : Char := if b < 128 then Char.ofUInt8 b else '?'

def number? (token : List UInt8) : Except PictureError Nat :=
  if maxToken < token.length then refuse "token too long"
  else
    match readWhole? 10 (token.map charOf) with
    | .ok n => if n < 0 then refuse "negative number" else .ok n.toNat
    | .error _ => refuse "not a number"

def next? (bytes : List UInt8) : Except PictureError (Nat × List UInt8) :=
  let (token, rest) := tokenFrom [] bytes
  return (← number? token, rest)

/-- Reads the head; returns the bytes after it as well. -/
def Header.read? (bytes : List UInt8) : Except PictureError (Header × List UInt8) :=
  let (name, rest) := magic 6 bytes
  match format? name with
  | none => refuse "unknown format"
  | some (kind, plain) => do
    let (width, rest) ← next? rest
    let (height, rest) ← next? rest
    let (greatest, rest) ← if kind = .bit then pure (1, rest) else next? rest
    if greatest = 0 || 65536 ≤ greatest then refuse "greatest sample out of range"
    else if width = 0 || height = 0 then refuse "no pixels"
    else .ok (⟨kind, plain, width, height, greatest⟩, rest)

namespace Header

def channels (h : Header) : Nat := if h.kind = .light then 3 else 1

def samples (h : Header) : Nat := h.width * h.height * h.channels

/-- Whether samples keep sixteen bits. -/
def isDeep (h : Header) : Bool := h.kind = .gray && 255 < h.greatest

/-- A sample in the range of a byte, or of two for deep samples; rounded to nearest. -/
def scale (h : Header) (n : Nat) : Nat :=
  let range := if h.isDeep then 65535 else 255
  let share := Float.ofNat n / Float.ofNat h.greatest * Float.ofNat range
  min range ((Exact.ofFloat share).nearest?.toOption.getD 0).toNat

end Header

/-! ## Samples -/

def stripComments (bytes : List UInt8) : List UInt8 :=
  match bytes with
  | [] => []
  | b :: rest => if b = 35 then stripComments (afterComment rest) else b :: stripComments rest
termination_by bytes.length
decreasing_by
  · have := length_afterComment rest
    simp only [List.length_cons]
    omega
  · simp

/-- The tokens among some bytes, after the bytes `token` of one, which are reversed. -/
def tokensFrom (token : List UInt8) : List UInt8 → List (List UInt8)
  | [] => if token.isEmpty then [] else [token.reverse]
  | b :: rest =>
    if isSpace b then
      if token.isEmpty then tokensFrom [] rest else token.reverse :: tokensFrom [] rest
    else tokensFrom (b :: token) rest

/-- The bits in a plain bitmap, one character each: all there are, of which so many are needed. -/
def plainBits? (count : Nat) (bytes : List UInt8) : Except PictureError (List Nat) :=
  let digits := (stripComments bytes).filter (!isSpace ·)
  if !digits.all (fun b ↦ b = 48 || b = 49) then refuse "not a bit"
  else if digits.length < count then refuse "not enough samples"
  else .ok ((digits.take count).map fun b ↦ b.toNat - 48)

/-- Whether bytes end within a token that is too long. -/
def endsTooLong (bytes : List UInt8) : Bool :=
  maxToken < (bytes.reverse.takeWhile (!isSpace ·)).length

/-- The samples in a plain file. What follows them is not read, but may not end in a token that is
too long. -/
def plainSamples? (h : Header) (bytes : List UInt8) : Except PictureError (List Nat) := do
  let text := stripComments bytes
  if endsTooLong text then refuse "token too long"
  let tokens := tokensFrom [] text
  let samples ← (tokens.take h.samples).mapM fun token ↦ do
    let n ← number? token
    if h.greatest < n then refuse "sample too large" else .ok (h.scale n)
  if samples.length < h.samples then refuse "not enough samples" else .ok samples

/-- Numbers of two bytes each, the higher one first. -/
def pairs : List UInt8 → List Nat
  | high :: low :: rest => (high.toNat * 256 + low.toNat) :: pairs rest
  | _ => []

def byteSamples? (h : Header) (bytes : List UInt8) : Except PictureError (List Nat) :=
  let stored :=
    if h.greatest < 256 then (bytes.take h.samples).map UInt8.toNat
    else pairs (bytes.take (2 * h.samples))
  if stored.length < h.samples then refuse "not enough samples" else .ok (stored.map h.scale)

/-- The bits of a row, the highest bit of each byte first. -/
def rowBits (width : Nat) (row : List UInt8) : List Nat :=
  (row.flatMap fun b ↦ [7, 6, 5, 4, 3, 2, 1, 0].map fun i ↦ (b.toNat.testBit i).toNat).take width

/-- The bits in a bitmap of bytes, in which every row begins with a new byte. -/
def byteBits? (h : Header) (bytes : List UInt8) : Except PictureError (List Nat) :=
  let size := (h.width + 7) / 8
  if bytes.length < size * h.height then refuse "not enough samples"
  else .ok ((List.range h.height).flatMap fun y ↦
    rowBits h.width ((bytes.drop (y * size)).take size))

def lightPixels : List Nat → List Pixel
  | r :: g :: b :: rest =>
    .light (UInt8.ofNat r) (UInt8.ofNat g) (UInt8.ofNat b) :: lightPixels rest
  | _ => []

/-- The pixels that samples make up; a bit that is set is black. -/
def pixels (h : Header) (samples : List Nat) : List Pixel :=
  match h.kind with
  | .bit => samples.map fun n ↦ .gray (if n = 0 then 255 else 0)
  | .gray => samples.map fun (n : Nat) ↦ if h.isDeep then .deep n else .gray (UInt8.ofNat n)
  | .light => lightPixels samples

def decode? (bytes : List UInt8) : Except PictureError Picture := do
  let (h, rest) ← Header.read? bytes
  PictureError.checkSize h.width h.height
  let samples ←
    match h.kind, h.plain with
    | .bit, true => plainBits? h.samples rest
    | .bit, false => byteBits? h rest
    | _, true => plainSamples? h rest
    | _, false => byteSamples? h rest
  .ok (.ofList h.width h.height (pixels h samples))

end Engraving.Portable
