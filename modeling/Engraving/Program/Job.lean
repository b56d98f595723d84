import Engraving.Image.Sampling
import Engraving.Number.Reading
import Engraving.Number.Writing
import Engraving.Program.Compiler

/-!
# Jobs and the pass over written lines

From a job and an image comes the text of a program. Its moves of equal power may be joined after
they are written.
-/

namespace Engraving

/-! ## Coalescing moves of equal power

Neighbouring moves along a row that burn with the same power in the same direction are one move.
This works on written lines, of whatever origin: a move is a line of the form `G1 X<length>S<power>`
where the length is a decimal with digits on both sides of its point and the power is a run of
digits. Two moves go together when both or neither have a minus sign and their powers are written
alike. Every other line stays where it is, and no move is carried past it.
-/

/-- A move along a row, as read from a written line. -/
structure PowerMove where
  /-- Whether the length is written with a minus sign. -/
  negative : Bool
  length : Float
  /-- The power, as it is written. -/
  power : List Char

namespace PowerMove

/-- Splits off a run of digits that is not empty. -/
def takeDigits? (text : List Char) : Option (List Char × List Char) :=
  let digits := text.takeWhile isDigit
  if digits.isEmpty then none else some (digits, text.dropWhile isDigit)

/-- Drops a fixed text from the front of another. -/
def dropText? : List Char → List Char → Option (List Char)
  | [], text => some text
  | c :: expected, d :: text => if c = d then dropText? expected text else none
  | _ :: _, [] => none

/-- The move that a line stands for. One line feed may follow at its end. -/
def read? (line : List Char) : Option PowerMove := do
  let rest ← dropText? "G1 X".toList line
  let negative := rest.head? == some '-'
  let unsigned := if negative then rest.tail else rest
  let (whole, rest) ← takeDigits? unsigned
  let rest ← dropText? ['.'] rest
  let (fraction, rest) ← takeDigits? rest
  let rest ← dropText? ['S'] rest
  let (power, rest) ← takeDigits? rest
  let sign := if negative then ['-'] else []
  let length ← readFloat? (sign ++ whole ++ '.' :: fraction)
  if rest = [] || rest = ['\n'] then some ⟨negative, length, power⟩ else none

/-- Whether two neighbouring moves are one. -/
def joins (a b : PowerMove) : Bool := a.negative == b.negative && a.power == b.power

/-- The move along `a` and then along `b`. -/
def extend (a b : PowerMove) : PowerMove := { a with length := a.length + b.length }

def text (m : PowerMove) : String :=
  "G1 X" ++ (FixedPoint.ofFloat 3 m.length).text ++ "S" ++ String.ofList m.power

end PowerMove

/-- Lines in the course of being coalesced. -/
structure Coalescing where
  /-- The lines that are settled, in reverse. -/
  done : List String
  /-- The move that may be extended yet. -/
  run? : Option PowerMove

namespace Coalescing

/-- Settles the move that may be extended. -/
def flush (c : Coalescing) : Coalescing := ⟨(c.run?.map PowerMove.text).toList ++ c.done, none⟩

/-- Takes up a move, as part of the one before it or as a new one. -/
def move (c : Coalescing) (m : PowerMove) : Coalescing :=
  match c.run?.filter (·.joins m) with
  | some run => ⟨c.done, some (run.extend m)⟩
  | none => ⟨c.flush.done, some m⟩

def line (c : Coalescing) (text : String) : Coalescing :=
  match PowerMove.read? text.toList with
  | some m => c.move m
  | none => ⟨text :: c.flush.done, none⟩

end Coalescing

/-- Joins neighbouring moves of equal power and direction. -/
def coalesce (lines : List String) : List String :=
  (lines.foldl Coalescing.line ⟨[], none⟩).flush.done.reverse

/-- What is done with the lines of a program before they are written out. -/
inductive PostPass where
  | identity
  | coalesce
  deriving DecidableEq, Repr

def PostPass.apply : PostPass → List String → List String
  | identity, lines => lines
  | coalesce, lines => Engraving.coalesce lines

/-! ## Jobs

A job says at which size, where and how an image is engraved. From a job and an image, or a grid of
gray values, comes the text of a program: the setting of the job is found, the grid is compiled,
and a pass is made over the written lines.
-/

/-- The text of the program of a grid, after a pass. -/
def programOf? {α : Type} [Checked α] (s : Setting α) (grid : Grid) (startX startY : α)
    (pass : PostPass) : Except NumberError String :=
  return programText (pass.apply (← compile? s grid startX startY).texts)

/-- How an image is engraved at a physical size, in millimetres and millimetres per minute. -/
structure Job where
  width : Quantity
  height : Quantity
  maxPower : Quantity
  feedRate : Quantity
  startX : Quantity := .real 0
  startY : Quantity := .real 0
  invert : Bool := false
  pass : PostPass := .identity

inductive JobError where
  | picture (error : PictureError)
  | setting (error : SettingError Quantity)
  | number (error : NumberError)

namespace JobError

def message : JobError → String
  | picture error => error.message
  | setting error => error.message
  | number error => error.message

end JobError

namespace Job

def setting? (job : Job) (grid : Grid) : Except (SettingError Quantity) (Setting Quantity) :=
  Setting.forSize? grid job.width job.height job.maxPower job.feedRate job.invert

def programOfGrid? (job : Job) (grid : Grid) : Except JobError String := do
  let setting ← (job.setting? grid).mapError .setting
  (programOf? setting grid job.startX job.startY job.pass).mapError .number

def programOfImage? [PictureDecoder] (job : Job) (image : List UInt8) : Except JobError String := do
  job.programOfGrid? (← (sample? image).mapError .picture)

end Job

end Engraving
