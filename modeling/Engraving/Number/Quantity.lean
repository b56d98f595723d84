import Engraving.Number.Writing

/-!
# Numbers that formulas are read over

Lengths and rates are quantities, which keep the form they were given in. The formulas of the
library are written over interfaces, so that they can be read over quantities, floats and rationals.
-/

namespace Engraving

/-! ## Quantities

A length, a rate or a percentage may be given as an integer or as a float, and the difference shows:
`1000` and `1000.0` are written differently, integers are added and multiplied exactly, and only
integers can be too large for a float. A `Quantity` keeps the form it was given in. An operation on
two integers stays exact, one on a float and an integer turns the integer into a float first and
is refused when that is impossible; a quotient is always a float.
-/

/-- A number in the form in which it was given. -/
inductive Quantity where
  | whole (n : Int)
  | real (x : Float)

namespace Quantity

instance : Inhabited Quantity := ⟨whole 0⟩

instance : Coe Float Quantity := ⟨real⟩

def toFloat? : Quantity → Except NumberError Float
  | whole n => wholeFloat? n
  | real x => .ok x

/-- The number as it is written: the digits of an integer, the shortest text of a float. -/
def text : Quantity → String
  | whole n => toString n
  | real x => shortestText x

/-- The number as it is written, unless it is an integer of too many digits. -/
def text? : Quantity → Except NumberError String
  | whole n => wholeText? n
  | real x => .ok (shortestText x)

/-- Applies an operation on integers to two integers and one on floats to all else. -/
def lift (onWhole : Int → Int → Int) (onReal : Float → Float → Float) :
    Quantity → Quantity → Except NumberError Quantity
  | whole m, whole n => .ok (whole (onWhole m n))
  | a, b => do .ok (real (onReal (← a.toFloat?) (← b.toFloat?)))

def add : Quantity → Quantity → Except NumberError Quantity := lift (· + ·) (· + ·)

def sub : Quantity → Quantity → Except NumberError Quantity := lift (· - ·) (· - ·)

def mul : Quantity → Quantity → Except NumberError Quantity := lift (· * ·) (· * ·)

/-- The quotient of two integers, rounded once. -/
def wholeQuotient (m n : Int) : Except NumberError Float :=
  if positive : 0 < n.natAbs then
    let x := quotientFloat ((m < 0) != (n < 0)) m.natAbs n.natAbs positive
    if (Exact.ofFloat x).isFinite then .ok x else .error .tooLarge
  else .error .wholeDivisionByZero

def div : Quantity → Quantity → Except NumberError Quantity
  | whole m, whole n => do .ok (real (← wholeQuotient m n))
  | a, b => do
    let x ← a.toFloat?
    let y ← b.toFloat?
    if y == 0 then .error .divisionByZero else .ok (real (x / y))

def neg : Quantity → Quantity
  | whole n => whole (-n)
  | real x => real (-x)

/-- Whether the number is zero or less; what is no number is neither. -/
def isNonpositive : Quantity → Bool
  | whole n => n ≤ 0
  | real x => x ≤ 0

/-- The number with a fixed count of decimal places. -/
def fixed? (places : Nat) (q : Quantity) : Except NumberError (FixedPoint places) :=
  return FixedPoint.ofFloat places (← q.toFloat?)

/-- The integer part, rounded toward zero. -/
def truncate? : Quantity → Except NumberError Int
  | whole n => .ok n
  | real x => (Exact.ofFloat x).truncate?

/-- The nearest integer, a half going to the even neighbour. -/
def nearest? : Quantity → Except NumberError Int
  | whole n => .ok n
  | real x => (Exact.ofFloat x).nearest?

end Quantity

/-! ## Arithmetic

Two interfaces let the library's formulas be read over more than one kind of number.

- `Checked` numbers have operations that may be refused. Programs are compiled over them: over
  `Quantity` when they run, and over `Rat` when a statement is about the formulas themselves.
- `Scalar` numbers have total operations and a decidable order. The geometry of previews is written
  over them, again with `Float` and `Rat` as the two readings.

No laws are asked for: floats keep few, and a statement that needs laws is made for `Rat`.
-/

/-- Numbers with operations that may be refused. -/
class Checked (α : Type) where
  ofWhole : Int → α
  /-- A natural literal as a measured number: sums over it are measured numbers too. -/
  literal : Nat → α
  neg : α → α
  add : α → α → Except NumberError α
  sub : α → α → Except NumberError α
  mul : α → α → Except NumberError α
  div : α → α → Except NumberError α
  isNonpositive : α → Bool
  /-- The nearest number with so many decimal places. -/
  fixed? (places : Nat) : α → Except NumberError (FixedPoint places)
  nearest? : α → Except NumberError Int
  text : α → String
  /-- The number as it is written, unless it is too long. -/
  text? : α → Except NumberError String

instance : Checked Quantity where
  ofWhole := .whole
  literal n := .real (Float.ofNat n)
  neg := Quantity.neg
  add := Quantity.add
  sub := Quantity.sub
  mul := Quantity.mul
  div := Quantity.div
  isNonpositive := Quantity.isNonpositive
  fixed? := Quantity.fixed?
  nearest? := Quantity.nearest?
  text := Quantity.text
  text? := Quantity.text?

instance : Checked Rat where
  ofWhole n := n
  literal n := n
  neg q := -q
  add p q := .ok (p + q)
  sub p q := .ok (p - q)
  mul p q := .ok (p * q)
  div p q := if q = 0 then .error .divisionByZero else .ok (p / q)
  isNonpositive q := decide (q ≤ 0)
  fixed? places q := .ok (FixedPoint.ofRat places q)
  nearest? q := .ok (Exact.signed (decide (q < 0)) (roundDiv q.num.natAbs q.den))
  text q := toString q.num ++ "/" ++ toString q.den
  text? q := .ok (toString q.num ++ "/" ++ toString q.den)

/-- Numbers with total operations and a decidable order. -/
class Scalar (α : Type) extends Add α, Sub α, Mul α, Div α, Neg α, LT α, LE α where
  decideLT : DecidableLT α
  decideLE : DecidableLE α
  ofNat : Nat → α

namespace Scalar

variable {α : Type} [Scalar α]

instance : DecidableLT α := Scalar.decideLT

instance : DecidableLE α := Scalar.decideLE

/-- The greater of two numbers, the first when neither is greater. -/
def greater (a b : α) : α := if a < b then b else a

/-- The lesser of two numbers, the first when neither is lesser. -/
def lesser (a b : α) : α := if b < a then b else a

end Scalar

instance : Scalar Float where
  decideLT := inferInstance
  decideLE := inferInstance
  ofNat := Float.ofNat

instance : Scalar Rat where
  decideLT := inferInstance
  decideLE := inferInstance
  ofNat n := n

end Engraving
