import Engraving.Number.Quantity
import Engraving.Text.Character
import Engraving.Text.Encoding
import Engraving.Toolpath.Word

/-!
# Reading the toolpath of a program

A program is read line by line. What one line leaves to the next is the position of the head and
whether coordinates are absolute; a line adds at most one segment. A line whose first motion code is
an arc is read as its chord.

A coordinate that is no finite number is left out, and in strict reading it ends the reading. Lines
without a motion code move nothing, but may still change the mode.
-/

namespace Engraving

/-! ## Segments of a toolpath and their bounds

A toolpath is a list of straight segments, and its bounds are the least rectangle around it. Both
are read over any `Scalar` numbers. Where two coordinates are equal the one met first stays, which
tells a zero from a negative zero.
-/

structure Point (α : Type) where
  x : α
  y : α
  deriving DecidableEq, Repr

/-- A straight move of the head; a rapid one is made without the beam. -/
structure Segment (α : Type) where
  start : Point α
  finish : Point α
  rapid : Bool
  deriving DecidableEq, Repr

/-- A rectangle along the axes. -/
structure Bounds (α : Type) where
  minX : α
  maxX : α
  minY : α
  maxY : α
  deriving DecidableEq, Repr

namespace Bounds

variable {α : Type} [Scalar α]

def width (b : Bounds α) : α := b.maxX - b.minX

def height (b : Bounds α) : α := b.maxY - b.minY

/-- Whether a place lies in the rectangle or on its sides. -/
def contains (b : Bounds α) (p : Point α) : Bool :=
  b.minX ≤ p.x && p.x ≤ b.maxX && b.minY ≤ p.y && p.y ≤ b.maxY

def single (p : Point α) : Bounds α := ⟨p.x, p.x, p.y, p.y⟩

/-- The rectangle, made as large as it takes to hold a place. -/
def extend (b : Bounds α) (p : Point α) : Bounds α where
  minX := Scalar.lesser b.minX p.x
  maxX := Scalar.greater b.maxX p.x
  minY := Scalar.lesser b.minY p.y
  maxY := Scalar.greater b.maxY p.y

/-- What stands for the bounds of a toolpath without segments: a square of a hundred millimetres. -/
def standard : Bounds α :=
  ⟨Scalar.ofNat 0, Scalar.ofNat 100, Scalar.ofNat 0, Scalar.ofNat 100⟩

/-- The least rectangle around some places. -/
def ofPoints? : List (Point α) → Option (Bounds α)
  | [] => none
  | p :: rest => some (rest.foldl extend (single p))

/-- The least rectangle around some segments. -/
def ofSegments (segments : List (Segment α)) : Bounds α :=
  (ofPoints? (segments.flatMap fun s ↦ [s.start, s.finish])).getD standard

end Bounds

/-! ## The state of the head -/

/-- How coordinates are meant. -/
inductive Positioning where
  | absolute
  | relative
  deriving DecidableEq, Repr

/-- The kinds of motion. -/
inductive Motion where
  | rapid
  | feed
  | arc
  deriving DecidableEq, Repr

/-- Where the head is. -/
structure HeadPosition where
  x : Float
  y : Float
  z : Float

/-- What a line finds when it is read. -/
structure HeadState where
  positioning : Positioning := .absolute
  position : HeadPosition := ⟨0, 0, 0⟩

inductive ProgramError where
  | notText (kind : String)
  | notUtf8 (error : Utf8Error)
  | badCoordinate (line : Nat) (word : Word)

namespace ProgramError

def message : ProgramError → String
  | notText kind => "Expected G-code text, got " ++ kind
  | notUtf8 error => "G-code is not valid UTF-8 text: " ++ error.message
  | badCoordinate line word =>
    "Line " ++ toString line ++ ": invalid " ++ word.letter.toString ++ " value '" ++
      String.ofList word.value ++ "'"

end ProgramError

/-! ## Codes of a line -/

/-- The codes of a line, as far as they matter to the path. -/
structure LineCodes where
  positioning : Positioning
  /-- Whether coordinates of this line are places of the machine. -/
  machine : Bool := false
  motion? : Option Motion := none

namespace LineCodes

/-- The motion that a code stands for. -/
def motionOf? (code : Int) : Option Motion :=
  if code = 0 then some .rapid
  else if code = 1 then some .feed
  else if code = 2 || code = 3 then some .arc
  else none

def code (c : LineCodes) (n : Int) : LineCodes :=
  if n = 90 then { c with positioning := .absolute }
  else if n = 91 then { c with positioning := .relative }
  else if n = 53 then { c with machine := true }
  else { c with motion? := c.motion? <|> motionOf? n }

def word (c : LineCodes) (w : Word) : LineCodes :=
  if w.letter = 'G' then (w.code?.map c.code).getD c else c

def ofWords (positioning : Positioning) (words : List Word) : LineCodes :=
  words.foldl word { positioning }

/-- Whether coordinates of the line are places. -/
def isAbsolute (c : LineCodes) : Bool := c.machine || c.positioning = .absolute

end LineCodes

/-! ## Coordinates of a line -/

namespace HeadPosition

def isAxis (letter : Char) : Bool := letter = 'X' || letter = 'Y' || letter = 'Z'

/-- Changes the coordinate of the axis that a letter names. -/
def modify (p : HeadPosition) (letter : Char) (f : Float → Float) : HeadPosition :=
  if letter = 'X' then { p with x := f p.x }
  else if letter = 'Y' then { p with y := f p.y }
  else if letter = 'Z' then { p with z := f p.z }
  else p

def word (absolute : Bool) (p : HeadPosition) (w : Word) : HeadPosition :=
  match w.number? with
  | some value => p.modify w.letter fun old ↦ if absolute then value else old + value
  | none => p

/-- Where the words of a line take the head. -/
def follow (absolute : Bool) (p : HeadPosition) (words : List Word) : HeadPosition :=
  words.foldl (word absolute) p

def point (p : HeadPosition) : Point Float := ⟨p.x, p.y⟩

end HeadPosition

/-- Whether a word is a coordinate without a finite number. -/
def Word.isBadCoordinate (w : Word) : Bool := HeadPosition.isAxis w.letter && w.number?.isNone

/-! ## Lines -/

/-- What a line contributes to the toolpath. An idle one holds words but no motion. -/
inductive LineOutcome where
  | blank
  | idle
  | moved (motion : Motion) (segment : Segment Float)

/-- Whether a line is passed over: it is empty, or begins with a comment. -/
def isSkipped (trimmed : List Char) : Bool :=
  match trimmed with
  | [] => true
  | c :: _ => c = ';' || c = '('

namespace HeadState

def words (strict : Bool) (line : Nat) (h : HeadState) (words : List Word) :
    Except ProgramError (HeadState × LineOutcome) :=
  let codes := LineCodes.ofWords h.positioning words
  match codes.motion? with
  | none => .ok ({ h with positioning := codes.positioning }, .idle)
  | some motion =>
    match if strict then words.find? Word.isBadCoordinate else none with
    | some word => .error (.badCoordinate line word)
    | none =>
      let target := h.position.follow codes.isAbsolute words
      .ok (⟨codes.positioning, target⟩,
        .moved motion ⟨h.position.point, target.point, motion = .rapid⟩)

/-- Reads a line, from which the blanks around it are removed. -/
def line (strict : Bool) (number : Nat) (h : HeadState) (trimmed : List Char) :
    Except ProgramError (HeadState × LineOutcome) :=
  if isSkipped trimmed then .ok (h, .blank)
  else
    match Word.ofLine trimmed with
    | [] => .ok (h, .blank)
    | words => h.words strict number words

end HeadState

/-! ## Programs -/

/-- A toolpath, as far as it is read. Lists are in reverse while reading goes on. -/
structure Toolpath where
  state : HeadState := {}
  lineCount : Nat := 0
  /-- How many segments are chords of arcs. -/
  arcCount : Nat := 0
  segments : List (Segment Float) := []
  /-- The numbers and texts of lines with words but no motion. -/
  idleLines : List (Nat × List Char) := []

namespace Toolpath

/-- Takes up the outcome of the next line. -/
def outcome (t : Toolpath) (trimmed : List Char) (state : HeadState) :
    LineOutcome → Toolpath
  | .blank => { t with state, lineCount := t.lineCount + 1 }
  | .idle =>
    { t with
      state
      lineCount := t.lineCount + 1
      idleLines := (t.lineCount + 1, trimmed) :: t.idleLines }
  | .moved motion segment =>
    { t with
      state
      lineCount := t.lineCount + 1
      arcCount := if motion = .arc then t.arcCount + 1 else t.arcCount
      segments := segment :: t.segments }

def line (strict : Bool) (t : Toolpath) (text : List Char) : Except ProgramError Toolpath := do
  let trimmed := trim text
  let (state, outcome) ← t.state.line strict (t.lineCount + 1) trimmed
  .ok (t.outcome trimmed state outcome)

/-- Puts the lists of a finished reading in order. -/
def inOrder (t : Toolpath) : Toolpath :=
  { t with segments := t.segments.reverse, idleLines := t.idleLines.reverse }

def ofText? (strict : Bool) (text : List Char) : Except ProgramError Toolpath :=
  return (← (lines text).foldlM (line strict) {}).inOrder

def ofBytes? (strict : Bool) (bytes : List UInt8) : Except ProgramError Toolpath :=
  match Utf8.decode bytes with
  | .ok text => ofText? strict text
  | .error e => .error (.notUtf8 e)

def bounds (t : Toolpath) : Bounds Float := Bounds.ofSegments t.segments

end Toolpath

end Engraving
