import Engraving.Number.Quantity

/-!
# Gray values

What a gray value means for the beam, and the grids of gray values that images are.
-/

namespace Engraving

/-! ## From gray values to laser power

A gray value lies between 0 (black) and 255 (white), a power between 0 and 1000 units, so that a
percentage of full power is ten units. The darker a pixel, the stronger the beam; an inverted
image burns its bright pixels instead. The darkest pixel gets exactly the ceiling that the greatest
percentage allows, and the lightest nothing.
-/

/-- The integer `n`, moved to the nearer end of the range `low … high` when it lies outside. -/
def clamp (low high n : Int) : Int := max low (min high n)

/-- A gray value as a byte: the integer part, clamped. -/
def grayOf? (q : Quantity) : Except NumberError UInt8 :=
  return UInt8.ofNat (clamp 0 255 (← q.truncate?)).toNat

/-- The greatest power that a percentage allows, in power units. -/
def powerCeiling? (maxPower : Quantity) : Except NumberError Nat :=
  return (clamp 0 100 (← maxPower.truncate?)).toNat * 10

/-- How dark a gray value is; on an inverted image the light ones count as dark. -/
def darkness (invert : Bool) (gray : UInt8) : Nat :=
  if invert then gray.toNat else 255 - gray.toNat

/-- The power units for a share `dark / 255` of the ceiling, rounded to nearest. -/
def scaledPower (ceiling dark : Nat) : Nat :=
  let exact := Float.ofNat dark / 255 * Float.ofNat ceiling + 0.5
  (clamp 0 ceiling (Exact.ofFloat exact).floor).toNat

def power? (maxPower : Quantity) (invert : Bool) (gray : UInt8) : Except NumberError Nat :=
  return scaledPower (← powerCeiling? maxPower) (darkness invert gray)

/-- The power units for every gray value of a row. -/
def powers? (maxPower : Quantity) (invert : Bool) (row : List UInt8) :
    Except NumberError (List Nat) :=
  row.mapM (power? maxPower invert)

/-! ## Grids of gray values

A grid holds the gray values of an image row by row, the topmost row first. All rows have the width
of the grid, which is part of the type; a grid without rows may be of any width. Places are counted
from the left and from the top, and negative ones from the right and from the bottom.
-/

/-- Gray values in rows of one width, the topmost row first. -/
structure Grid where
  width : Int
  /-- The rows, from top to bottom. -/
  rows : List (List UInt8)
  uniform : ∀ row ∈ rows, (row.length : Int) = width

inductive GridError where
  | rowCount (expected : Int) (actual : Nat)
  | rowLength (row actual : Nat) (expected : Int)
  /-- A gray value is not a number that can be rounded. -/
  | number (error : NumberError)
  deriving DecidableEq, Repr

namespace GridError

def message : GridError → String
  | rowCount expected actual =>
    "Expected " ++ toString expected ++ " rows, got " ++ toString actual
  | rowLength row actual expected =>
    "Row " ++ toString row ++ " has " ++ toString actual ++ " values, expected " ++
      toString expected
  | number error => error.message

end GridError

/-- The element at a place, counted from the end when the place is negative. -/
def elementAt? {α : Type} (place : Int) (elements : List α) : Option α :=
  let i := if place < 0 then place + elements.length else place
  if i < 0 then none else elements[i.toNat]?

namespace Grid

def height (g : Grid) : Nat := g.rows.length

/-- The grid without rows and columns. -/
def empty : Grid := ⟨0, [], by simp⟩

/-- The first row, counted from `index` on, that does not have the width `width`. -/
def badRow? (width : Int) (index : Nat) : List (List UInt8) → Option (Nat × Nat)
  | [] => none
  | row :: rest =>
    if (row.length : Int) = width then badRow? width (index + 1) rest
    else some (index, row.length)

theorem uniform_of_badRow? {width : Int} {index : Nat} {rows : List (List UInt8)}
    (h : badRow? width index rows = none) : ∀ row ∈ rows, (row.length : Int) = width := by
  induction rows generalizing index with
  | nil => simp
  | cons row rest ih =>
    rw [badRow?] at h
    split at h
    · next fits => simpa [fits] using ih h
    · cases h

/-- The grid of an announced width and height. -/
def of? (width height : Int) (rows : List (List UInt8)) : Except GridError Grid :=
  if (rows.length : Int) = height then
    match h : badRow? width 0 rows with
    | none => .ok ⟨width, rows, uniform_of_badRow? h⟩
    | some (row, actual) => .error (.rowLength row actual width)
  else .error (.rowCount height rows.length)

/-- The grid of some rows, as wide as the first of them. -/
def ofRows? (rows : List (List UInt8)) : Except GridError Grid :=
  of? ((rows.head?.map List.length).getD 0) rows.length rows

/-- The grid of rows of numbers, each of which is turned into a gray value. -/
def ofQuantities? (rows : List (List Quantity)) : Except GridError Grid :=
  match rows.mapM (·.mapM grayOf?) with
  | .ok rows => ofRows? rows
  | .error e => .error (.number e)

/-- The grid of a width and a height whose values are given by column and row. -/
def tabulate (width height : Nat) (gray : Nat → Nat → UInt8) : Grid where
  width := width
  rows := (List.range height).map fun y ↦ (List.range width).map fun x ↦ gray x y
  uniform := by
    intro row member
    obtain ⟨y, -, rfl⟩ := List.mem_map.1 member
    simp

def row? (g : Grid) (y : Int) : Option (List UInt8) := elementAt? y g.rows

/-- The gray value in column `x` of row `y`. -/
def grayAt? (g : Grid) (x y : Int) : Option UInt8 := (g.row? y).bind (elementAt? x)

end Grid

end Engraving
