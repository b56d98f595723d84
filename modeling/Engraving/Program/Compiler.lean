import Engraving.Grid
import Engraving.Number.Quantity
import Engraving.Number.Writing

/-!
# Programs and how they are compiled

A program is a list of typed lines, and it is compiled from a grid of gray values.

## Contents

- `Setting`: what a program is compiled for.
- `ProgramLine`: a line of a program, and its written form.
- `Workpiece`: the lines written so far, with their length and duration.
- `Compiler`: an action on a workpiece.
- `Compiler.compile`: the whole program of a grid.
-/

namespace Engraving

/-! ## Power settings

What a program is compiled for, apart from the image: how strong the beam may get, how fast the head
moves, and how far apart pixels and rows lie. Rates and distances are positive, and the type says
so. A setting is read over any `Checked` numbers; the percentage of power is always a `Quantity`,
because only its integer part counts.
-/

/-- How an image is engraved. -/
structure Setting (α : Type) [Checked α] where
  /-- The greatest power, in percent of full power. -/
  maxPower : Quantity
  /-- How fast the head moves, in millimetres per minute. -/
  feedRate : α
  /-- The distance between neighbouring pixels of a row, in millimetres. -/
  step : α
  /-- The distance between neighbouring rows, when it is not that of pixels. -/
  lineStep? : Option α := none
  invert : Bool := false
  feedRate_positive : Checked.isNonpositive feedRate = false
  step_positive : Checked.isNonpositive step = false
  lineStep_positive : ∀ lineStep ∈ lineStep?, Checked.isNonpositive lineStep = false

inductive SettingError (α : Type) where
  | feedRate (given : α)
  | step (given : α)
  | lineStep (given : α)
  /-- An image without pixels has no step. -/
  | emptyGrid
  | number (error : NumberError)

namespace SettingError

variable {α : Type} [Checked α]

def message : SettingError α → String
  | feedRate given => "Feed rate must be positive, got " ++ Checked.text given
  | step given => "Step size must be positive, got " ++ Checked.text given
  | lineStep given => "Line step must be positive, got " ++ Checked.text given
  | emptyGrid => "Cannot derive step size from an empty grid"
  | number error => error.message

end SettingError

namespace Setting

variable {α : Type} [Checked α]

/-- The setting of the given values, if its rates and distances are positive. -/
def of? (maxPower : Quantity) (feedRate step : α) (lineStep? : Option α) (invert : Bool) :
    Except (SettingError α) (Setting α) :=
  if feed : Checked.isNonpositive feedRate = false then
    if pixel : Checked.isNonpositive step = false then
      match lineStep? with
      | none => .ok ⟨maxPower, feedRate, step, none, invert, feed, pixel, by simp⟩
      | some lineStep =>
        if line : Checked.isNonpositive lineStep = false then
          .ok ⟨maxPower, feedRate, step, some lineStep, invert, feed, pixel, by simpa using line⟩
        else .error (.lineStep lineStep)
    else .error (.step step)
  else .error (.feedRate feedRate)

/-- The setting that engraves a grid at a physical size. -/
def forSize? (grid : Grid) (width height : α) (maxPower : Quantity) (feedRate : α)
    (invert : Bool) : Except (SettingError α) (Setting α) :=
  if grid.width = 0 || grid.height = 0 then .error .emptyGrid
  else
    match Checked.div width (Checked.ofWhole grid.width) with
    | .error e => .error (.number e)
    | .ok step =>
      match Checked.div height (Checked.ofWhole grid.height) with
      | .error e => .error (.number e)
      | .ok lineStep => of? maxPower feedRate step (some lineStep) invert

/-- The distance between neighbouring rows. -/
def rowPitch (s : Setting α) : α := s.lineStep?.getD s.step

end Setting

/-! ## The lines of a program

A program is a list of typed lines, and each has one written form. Lengths in a line are decimals
with three places, which is what the machine executes: whatever is said about the motion of a
program can be read off the typed lines without any float arithmetic.
-/

/-- A line of an engraving program. -/
inductive ProgramLine where
  | comment (text : String)
  | millimetres
  | absolute
  | feedRate (rate : Int)
  /-- Puts the head at a place of the machine. -/
  | place (x y : FixedPoint 3)
  | laserOn
  | relative
  /-- Moves along a row by `delta` and burns with `power`. -/
  | burn (delta : FixedPoint 3) (power : Int)
  /-- Moves to the next row by `delta`. -/
  | advance (delta : FixedPoint 3)
  | laserOff
  /-- Coordinates are absolute again, at the end of a program. -/
  | restoreAbsolute
  deriving DecidableEq, Repr

namespace ProgramLine

def text : ProgramLine → String
  | comment text => "; " ++ text
  | millimetres => "G21 ; Set units to millimeters"
  | absolute => "G90 ; Absolute positioning"
  | feedRate rate => "F" ++ toString rate ++ " ; Set feed rate"
  | place x y => "G53 G0 X" ++ x.text ++ " Y" ++ y.text ++ " ; Move to start (machine coordinates)"
  | laserOn => "M4 ; Enable laser (dynamic power mode)"
  | relative => "G91 ; Relative positioning"
  | burn delta power => "G1 X" ++ delta.text ++ "S" ++ toString power
  | advance delta => "G1 Y" ++ delta.text
  | laserOff => "M5 ; Disable laser"
  | restoreAbsolute => "G90 ; Return to absolute positioning"

end ProgramLine

/-- Lines as one text, each with its line feed. -/
def programText (lines : List String) : String := "\n".intercalate lines ++ "\n"

/-! ## Compiling a grid into a program

The head is placed on the topmost row, and from there it scans in relative moves, one per pixel,
every second row from right to left, with one move down between rows. While lines are written the
length of the path and the time it takes are summed up.

Writing may stop at any point, for a number that cannot be written or computed with. The lines
written so far, and their sums, stay: that is why the failure stands outside of the state.
-/

/-- A program in the making. -/
structure Workpiece (α : Type) where
  lines : Array ProgramLine
  /-- The length of the path, in millimetres. -/
  distance : α
  /-- The time the path takes, in seconds. -/
  elapsed : α

/-- The workpiece before its first line. -/
def Workpiece.blank {α : Type} [Checked α] : Workpiece α :=
  ⟨#[], Checked.literal 0, Checked.literal 0⟩

/-- An action on a workpiece that may stop halfway. -/
abbrev Compiler (α : Type) := ExceptT NumberError (StateM (Workpiece α))

namespace Compiler

variable {α : Type} [Checked α]

def emit (line : ProgramLine) : Compiler α Unit :=
  modify fun w ↦ { w with lines := w.lines.push line }

/-- Writes a line that shows an integer, unless the integer has too many digits. -/
def emitWhole (n : Int) (line : ProgramLine) : Compiler α Unit := do
  let _ ← wholeText? n
  emit line

/-- Adds a move of the given length to the sums, at a feed rate in millimetres per minute. The
length is added before the time is known. -/
def travel (feedRate length : α) : Compiler α Unit := do
  unless Checked.isNonpositive length || Checked.isNonpositive feedRate do
    let distance ← Checked.add (← get).distance length
    modify fun w ↦ { w with distance }
    let time ← Checked.div length (← Checked.div feedRate (Checked.literal 60))
    let elapsed ← Checked.add (← get).elapsed time
    modify fun w ↦ { w with elapsed }

def comment (text : String) : Compiler α Unit := emit (.comment text)

/-- Writes the remarks at the head of a program. -/
def header (s : Setting α) (grid : Grid) : Compiler α Unit := do
  let width ← Checked.mul (Checked.ofWhole grid.width) s.step
  let height ← Checked.mul (Checked.ofWhole grid.height) s.rowPitch
  comment "Raster engraving program"
  emitWhole grid.width
    (.comment ("Image size: " ++ toString grid.width ++ "x" ++ toString grid.height ++ " pixels"))
  let width ← Checked.fixed? 2 width
  let height ← Checked.fixed? 2 height
  comment ("Physical size: " ++ width.text ++ "mm x " ++ height.text ++ "mm")
  let maxPower ← s.maxPower.text?
  let feedRate ← Checked.text? s.feedRate
  comment ("Max power: " ++ maxPower ++ "%, feed rate: " ++ feedRate ++ "mm/min")

/-- Writes the lines that prepare the machine and put the head on the topmost row, which lies
furthest up. -/
def preamble (s : Setting α) (grid : Grid) (startX startY : α) : Compiler α Unit := do
  let height ← Checked.mul (Checked.ofWhole grid.height) s.rowPitch
  let top ← Checked.sub (← Checked.add startY height) s.rowPitch
  emit .millimetres
  emit .absolute
  let rate ← Checked.nearest? s.feedRate
  emitWhole rate (.feedRate rate)
  let x ← Checked.fixed? 3 startX
  let y ← Checked.fixed? 3 top
  emit (.place x y)
  emit .laserOn
  emit .relative

/-- Writes the moves of one row; the powers are given from left to right. -/
def row (s : Setting α) (powers : List Int) (leftToRight : Bool) : Compiler α Unit := do
  let delta := if leftToRight then s.step else Checked.neg s.step
  (if leftToRight then powers else powers.reverse).forM fun power ↦ do
    let delta ← Checked.fixed? 3 delta
    emitWhole power (.burn delta power)
    travel s.feedRate s.step

def advance (s : Setting α) : Compiler α Unit := do
  emit (.advance (← Checked.fixed? 3 (Checked.neg s.rowPitch)))
  travel s.feedRate s.rowPitch

/-- Writes the rows from row `y` on, the first of them in the given direction. -/
def rows (s : Setting α) (y : Nat) (leftToRight : Bool) : List (List UInt8) → Compiler α Unit
  | [] => pure ()
  | grays :: rest => do
    comment ("Row " ++ toString y)
    let powers ← powers? s.maxPower s.invert grays
    row s (powers.map Int.ofNat) leftToRight
    unless rest.isEmpty do advance s
    rows s (y + 1) (!leftToRight) rest

/-- Writes the lines that end a program. -/
def footer : Compiler α Unit := do
  emit .laserOff
  emit .restoreAbsolute

def reset : Compiler α Unit := set (Workpiece.blank : Workpiece α)

/-- Writes the whole program of a grid, whatever was written before. -/
def compile (s : Setting α) (grid : Grid) (startX startY : α) : Compiler α Unit := do
  reset
  header s grid
  preamble s grid startX startY
  rows s 0 true grid.rows
  footer

end Compiler

def compile? {α : Type} [Checked α] (s : Setting α) (grid : Grid) (startX startY : α) :
    Except NumberError (Workpiece α) :=
  match (Compiler.compile s grid startX startY).run.run .blank with
  | (.ok (), w) => .ok w
  | (.error e, _) => .error e

def Workpiece.texts {α : Type} (w : Workpiece α) : List String :=
  w.lines.toList.map ProgramLine.text

end Engraving
