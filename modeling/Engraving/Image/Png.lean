import Engraving.Image.Png.Header

/-!
# Pictures in PNG files

The rows of a picture are stored in up to seven passes, filtered and compressed. They are taken from
the data one by one and put in their places.
-/

namespace Engraving

/-! ## The layout of rows in PNG files

The pixels of a picture are given in one pass, or interlaced in seven, of which the first ones give
a coarse view of the whole. A pass takes pixels at regular distances across and down; every pixel
belongs to exactly one pass (`length_filter_has`). The rows of a pass are stored one after the
other, each behind the number of its filter, and passes without pixels are left out.
-/

namespace Png

/-! ### Passes -/

/-- A pass over a picture: where its first pixel lies and how far apart its pixels are. -/
structure Pass where
  column : Nat
  row : Nat
  columnStep : Nat
  rowStep : Nat

namespace Pass

/-- How many pixels a row of the pass has. -/
def columns (p : Pass) (width : Nat) : Nat := (width + (p.columnStep - 1 - p.column)) / p.columnStep

def rows (p : Pass) (height : Nat) : Nat := (height + (p.rowStep - 1 - p.row)) / p.rowStep

/-- Whether a pixel belongs to the pass. -/
def has (p : Pass) (x y : Nat) : Bool := x % p.columnStep = p.column && y % p.rowStep = p.row

def all (interlaced : Bool) : List Pass :=
  if interlaced then
    [⟨0, 0, 8, 8⟩, ⟨4, 0, 8, 8⟩, ⟨0, 4, 4, 8⟩, ⟨2, 0, 4, 4⟩, ⟨0, 2, 2, 4⟩, ⟨1, 0, 2, 2⟩, ⟨0, 1, 1, 2⟩]
  else [⟨0, 0, 1, 1⟩]

/-- The pattern of passes repeats after eight columns and eight rows. -/
theorem has_mod (interlaced : Bool) (x y : Nat) {p : Pass} (h : p ∈ all interlaced) :
    p.has (x % 8) (y % 8) = p.has x y := by
  have steps : p.columnStep ∣ 8 ∧ p.rowStep ∣ 8 := by
    revert p
    cases interlaced <;> decide
  simp [has, Nat.mod_mod_of_dvd _ steps.1, Nat.mod_mod_of_dvd _ steps.2]

theorem length_filter_has (interlaced : Bool) (x y : Nat) :
    ((all interlaced).filter (·.has x y)).length = 1 := by
  have pattern : ∀ interlaced, ∀ x < 8, ∀ y < 8,
      ((all interlaced).filter (·.has x y)).length = 1 := by
    decide
  rw [← pattern interlaced (x % 8) (Nat.mod_lt _ (by decide)) (y % 8) (Nat.mod_lt _ (by decide)),
    List.filter_congr fun p h ↦ (has_mod interlaced x y h).symm]

end Pass

/-! ### Rows -/

/-- How the rows of a picture are laid out. -/
structure Layout where
  format : Format
  width : Nat
  height : Nat
  interlaced : Bool

/-- Where a row lies in the data. -/
structure RowPlace where
  /-- Where it begins, with its filter. -/
  start : Nat
  /-- How many bytes it has, its filter included. -/
  size : Nat
  isFirst : Bool

def RowPlace.stop (r : RowPlace) : Nat := r.start + r.size

namespace Layout

def passes (l : Layout) : List Pass :=
  (Pass.all l.interlaced).filter fun p ↦ 0 < p.columns l.width && 0 < p.rows l.height

/-- The bytes of a row of a pass, its filter included. -/
def rowSize (l : Layout) (p : Pass) : Nat := l.format.rowBytes (p.columns l.width) + 1

def rowCount (l : Layout) : Nat := l.passes.foldl (fun n p ↦ n + p.rows l.height) 0

/-- Where a row lies, counted from the first of some passes, whose data begin at a place. -/
def rowFrom (l : Layout) (start row : Nat) : List Pass → RowPlace
  | [] => ⟨start, 0, true⟩
  | p :: rest =>
    let count := p.rows l.height
    if row < count then ⟨start + row * l.rowSize p, l.rowSize p, row = 0⟩
    else l.rowFrom (start + count * l.rowSize p) (row - count) rest

def row (l : Layout) (n : Nat) : RowPlace := l.rowFrom 0 n l.passes

def size (l : Layout) : Nat := (l.row (l.rowCount - 1)).stop

/-- In which row of some passes a pixel is, and where in the row; `before` rows come before. -/
def pixelFrom (l : Layout) (x y before : Nat) : List Pass → Nat × Nat
  | [] => (before, 0)
  | p :: rest =>
    if p.has x y then (before + y / p.rowStep, x / p.columnStep)
    else l.pixelFrom x y (before + p.rows l.height) rest

/-- In which row a pixel is, and where in the row. -/
def pixel (l : Layout) (x y : Nat) : Nat × Nat := l.pixelFrom x y 0 l.passes

end Layout

end Png

/-! ## The data of PNG files

The bodies of successive chunks with data make up one compressed stream, in which every row is
preceded by the number of the filter that was applied to it. The stream is taken in pieces, and each
row is asked for by itself, so that nothing is looked at that lies in a piece behind the last row.

A stream that ends after a row leaves the rows below it blank. That end has to be found together
with the row, which means in the same piece.
-/

namespace Png

/-! ### Pieces -/

structure Piece where
  stop : Nat
  /-- The chunk that it lies in. -/
  chunk : Chunk

def pieceLength : Nat := 65536

structure Stream where
  bytes : ByteArray := .empty
  pieces : Array Piece := #[]

namespace Stream

/-- Adds the data of a chunk, as much of them as there is. -/
def append (s : Stream) (file : ByteArray) (c : Chunk) : Stream :=
  let body := file.extract c.dataStart c.stop
  let count := (body.size + pieceLength - 1) / pieceLength
  let pieces := (List.range count).map fun i ↦
    ⟨s.bytes.size + min body.size ((i + 1) * pieceLength), c⟩
  ⟨s.bytes ++ body, s.pieces ++ pieces.toArray⟩

/-- Collects the stream from a chunk on. -/
def collect (file : ByteArray) : Nat → Chunk → Stream → Stream
  | 0, _, s => s
  | fuel + 1, c, s =>
    let s := s.append file c
    match (Chunk.at? file c.next).filter Chunk.hasData with
    | some next => collect file fuel next s
    | none => s

end Stream

/-! ### Rows -/

/-- The rows of a stream, with their filters. -/
structure FilteredRows where
  bytes : ByteArray
  count : Nat
  /-- The chunk that the last of them ends in. -/
  chunk : Chunk

/-- Goes through the rows from a number on: `reached` bytes of the stream were read before. A row is
complete in the first piece that holds what it takes; a piece that was read to its end gives nothing
more. Returns the number of rows and the chunk of the last one. -/
def lastRow? (stop : Except InflateStop Unit) (s : Inflater) (l : Layout) :
    Nat → Nat → Nat → List Piece → Except PictureError (Nat × Chunk)
  | 0, _, _, _ => refuse "image file is truncated"
  | fuel + 1, row, reached, pieces =>
    match s.ends[row]? with
    | none => refuse "image file is truncated"
    | some needed =>
      match pieces.dropWhile fun piece ↦ piece.stop ≤ reached || piece.stop < needed with
      | [] => refuse "image file is truncated"
      | piece :: rest =>
        let isLast := s.output.size = (l.row row).stop
        let found := isLast && s.bytesRead ≤ piece.stop
        let ended := found && stop.isOk
        if row + 1 = l.rowCount then
          if found && stop matches .error .corrupt then refuse "broken data stream"
          else .ok (row + 1, piece.chunk)
        else if ended then .ok (row + 1, piece.chunk)
        else
          let reached := min piece.stop (s.starts[row]?.getD s.bytesRead)
          lastRow? stop s l fuel (row + 1) reached (piece :: rest)

def Stream.rows? (s : Stream) (l : Layout) : Except PictureError FilteredRows := do
  let (stop, inflater) := Inflater.run s.bytes l.size fun row ↦ (l.row row).stop
  let (count, chunk) ← lastRow? stop inflater l l.rowCount 0 0 s.pieces.toList
  .ok ⟨inflater.output, count, chunk⟩

/-! ### Filters -/

/-- Of three neighbours, the one nearest to `left + above - corner`. -/
def nearestNeighbour (left above corner : Nat) : Nat :=
  let guess : Int := left + above - corner
  let a := (guess - left).natAbs
  let b := (guess - above).natAbs
  let c := (guess - corner).natAbs
  if a ≤ b && a ≤ c then left else if b ≤ c then above else corner

/-- What a filter guesses a byte to be from its neighbours to the left, above, and above to the
left. -/
def guess? (filter : Nat) : Option (Nat → Nat → Nat → Nat) :=
  [fun _ _ _ ↦ 0, fun left _ _ ↦ left, fun _ above _ ↦ above,
    fun left above _ ↦ (left + above) / 2, nearestNeighbour][filter]?

/-- Takes a filter off a row, given the row above it. -/
def unfilter (step : Nat) (guess : Nat → Nat → Nat → Nat) (above row : ByteArray) : ByteArray :=
  (List.range row.size).foldl (fun done i ↦
    let at' (bytes : ByteArray) (back : Nat) : Nat :=
      if back ≤ i then (bytes[i - back]?.getD 0).toNat else 0
    done.push (UInt8.ofNat
      (at' row 0 + guess (at' done step) (at' above 0) (at' above step)))) .empty

/-- Takes the filters off so many rows; those above were done before and are given in reverse. Above
the first row of a pass there is nothing. -/
def unfilterRows? (l : Layout) (bytes : ByteArray) :
    Nat → List ByteArray → Except PictureError (List ByteArray)
  | 0, done => .ok done.reverse
  | count + 1, done =>
    let place := l.row done.length
    let row := bytes.extract place.start place.stop
    match guess? (row[0]?.getD 0).toNat with
    | none => refuse "unknown filter"
    | some guess =>
      let above := if place.isFirst then .empty else done.head?.getD .empty
      unfilterRows? l bytes count
        (unfilter l.format.filterStep guess above (row.extract 1 place.size) :: done)

end Png

/-! ## Pictures

Pictures are read in all colour types and depths, interlaced or not. The end of the file is not
insisted on: once all rows are there, the file may break off anywhere but in the body of a later
chunk.
-/

namespace Png

/-- The sample at an index of a row, as it is stored. -/
def sample (depth : Nat) (row : ByteArray) (i : Nat) : Nat :=
  let byte (j : Nat) := (row[j]?.getD 0).toNat
  if depth = 16 then byte (2 * i) * 256 + byte (2 * i + 1)
  else byte (i * depth / 8) / Nat.pow 2 (8 - depth - i * depth % 8) % Nat.pow 2 depth

def sampleByte (depth n : Nat) : UInt8 :=
  if depth = 16 then UInt8.ofNat (n / 256) else UInt8.ofNat (n * 255 / (Nat.pow 2 depth - 1))

/-- How many colours a palette can have; one that is not complete does not count. -/
def maxColors : Nat := 256

/-- A colour of the palette; one that is not given is black. -/
def paletteColor (palette : Array UInt8) (n : Nat) : Pixel :=
  if 3 * n + 2 < palette.size then
    .light (palette[3 * n]?.getD 0) (palette[3 * n + 1]?.getD 0) (palette[3 * n + 2]?.getD 0)
  else .light 0 0 0

/-- The pixel in a column of a row. With a palette, gray values are numbers of its colours. -/
def pixelOf (f : Format) (palette? : Option (Array UInt8)) (row : ByteArray) (x : Nat) : Pixel :=
  let stored (i : Nat) := sample f.depth row (x * f.color.channels + i)
  let byte (i : Nat) := sampleByte f.depth (stored i)
  match f.color, palette? with
  | .palette, palette? => paletteColor (palette?.getD #[]) (stored 0)
  | .gray, some palette | .grayAlpha, some palette => paletteColor palette (byte 0).toNat
  | .gray, none => if f.depth = 16 then .deep (stored 0) else .gray (byte 0)
  | .grayAlpha, none => .gray (byte 0)
  | .light, _ | .lightAlpha, _ => .light (byte 0) (byte 1) (byte 2)

/-- Refuses a palette that is too long, or that pixels of a form cannot take colours from. -/
def checkPalette? (f : Format) (palette? : Option (List UInt8)) : Except PictureError Unit :=
  match palette? with
  | some palette =>
    if f.takesPalette && palette.length / 3 ≤ maxColors then .ok ()
    else refuse "palette does not fit"
  | none => .ok ()

/-- The part of the picture that is given: all of it, unless it is one of several pictures. A region
without columns at the left edge means all of it, too. -/
def region? (h : Header) : Except PictureError Region :=
  match h.region?.filter fun r ↦ 0 < r.column || 0 < r.width with
  | none => .ok ⟨0, 0, h.width, h.height⟩
  | some r =>
    if 0 < r.width && r.column + r.width ≤ h.width && 0 < r.height && r.row + r.height ≤ h.height
    then .ok r
    else refuse "region does not fit"

/-- The pixel of the picture that is given in a region. What lies outside is blank; interlaced rows
begin at the corner of the picture. -/
def pixelIn (l : Layout) (r : Region) (pixel : Nat → Nat → Pixel) (blank : Pixel) (x y : Nat) :
    Pixel :=
  let (left, top) := if l.interlaced then (0, 0) else (r.column, r.row)
  if left ≤ x && x < left + r.width && top ≤ y && y < top + r.height then pixel (x - left) (y - top)
  else blank

def decode? (file : ByteArray) : Except PictureError Picture := do
  let (h, first) ← Header.before? file file.size signature.length {}
  match h.format? with
  | none => refuse "no header"
  | some f =>
    if h.width = 0 || h.height = 0 then refuse "no pixels"
    PictureError.checkSize h.width h.height
    if !first.hasData then refuse "no data"
    checkPalette? f h.palette?
    let r ← region? h
    let l : Layout := ⟨f, r.width, r.height, h.interlaced⟩
    let filtered ← (Stream.collect file file.size first {}).rows? l
    let several := h.isAnimated
    let h ← h.throughData? file filtered.chunk file.size first
    h.demandRest file several file.size filtered.chunk.next
    let rows ← unfilterRows? l filtered.bytes filtered.count []
    let rows := rows.toArray
    let palette? := h.palette?.map List.toArray
    let pixel (x y : Nat) : Pixel :=
      let (row, index) := l.pixel x y
      pixelOf f palette? (rows[row]?.getD .empty) index
    .ok ⟨h.width, h.height, pixelIn l r pixel (pixelOf f palette? .empty 0)⟩

end Png

end Engraving
