/-!
# The exact value of a binary64 number

Everything the library prints or rounds is decided on exact integers: a finite float is read as a
sign, a significand and a power of two, and from there on there is no float arithmetic left. The
sign is kept apart from the magnitude because a negative zero is printed with its sign.

The decoding goes through `Float.Model`, the logical side of core's `Float`, so that what a float
denotes here is what the arithmetic on floats is specified by.

## Contents

- `wholeText?`: the decimal digits of an integer.
- `roundDiv`: the quotient of two naturals, rounded to nearest with ties to even.
- `Exact`: a float taken apart, and `Exact.truncate?`, `Exact.nearest?`, `Exact.floor`.
- `quotientFloat`, `wholeFloat?`: floats nearest to a ratio and to an integer.
-/

namespace Engraving

inductive NumberError where
  /-- An integer, or a quotient of two, lies beyond the finite floats. -/
  | tooLarge
  | infinite
  | undefined
  | divisionByZero
  | wholeDivisionByZero
  /-- An integer has more digits than are written. -/
  | tooLong
  deriving DecidableEq, Repr

namespace NumberError

/-- The greatest count of decimal digits that integers are read and written with. -/
def maxDigits : Nat := 4300

def message : NumberError → String
  | tooLarge => "int too large to convert to float"
  | infinite => "cannot convert float infinity to integer"
  | undefined => "cannot convert float NaN to integer"
  | divisionByZero => "float division by zero"
  | wholeDivisionByZero => "division by zero"
  | tooLong =>
    "Exceeds the limit (" ++ toString maxDigits ++ " digits) for integer string conversion; " ++
      "use sys.set_int_max_str_digits() to increase the limit"

end NumberError

/-- The digits of an integer, unless there are too many. Irreducible, because the bound on them is
nothing to be computed with. -/
@[irreducible]
def wholeText? (n : Int) : Except NumberError String :=
  if n.natAbs < Nat.pow 10 NumberError.maxDigits then .ok (toString n) else .error .tooLong

/-- The quotient `num / den` rounded to the nearest natural, a half going to the even neighbour. -/
def roundDiv (num den : Nat) : Nat :=
  let quotient := num / den
  let rest := num % den
  if 2 * rest < den then quotient
  else if den < 2 * rest then quotient + 1
  else quotient + quotient % 2

/-- A binary64 number taken apart. -/
inductive Exact where
  /-- The number `± significand * 2 ^ exponent`; both zeros have significand zero. -/
  | finite (negative : Bool) (significand : Nat) (exponent : Int)
  | infinite (negative : Bool)
  | undefined
  deriving DecidableEq, Repr

namespace Exact

def ofFloat (x : Float) : Exact :=
  match x.toModel.unpack with
  | .finite sign significand exponent _ => finite (sign == .negative) significand exponent
  | .zero sign => finite (sign == .negative) 0 0
  | .infinity sign => infinite (sign == .negative)
  | .notANumber => undefined

/-- The numerator of `significand * 2 ^ exponent` over `denominator exponent`. -/
def numerator (significand : Nat) (exponent : Int) : Nat :=
  significand * Nat.pow 2 exponent.toNat

/-- The power of two under a negative exponent, one otherwise. -/
def denominator (exponent : Int) : Nat := Nat.pow 2 (-exponent).toNat

theorem denominator_pos (exponent : Int) : 0 < denominator exponent := Nat.two_pow_pos _

/-- The exact value as a rational number, for a finite float. -/
def toRat? : Exact → Option Rat
  | finite negative significand exponent =>
    let magnitude := mkRat (numerator significand exponent) (denominator exponent)
    some (if negative then -magnitude else magnitude)
  | _ => none

def signed (negative : Bool) (magnitude : Nat) : Int := if negative then -magnitude else magnitude

/-- Applies `round` to the numerator and denominator of the magnitude and puts the sign back. -/
def toInt? (round : Nat → Nat → Nat) : Exact → Except NumberError Int
  | finite negative significand exponent =>
    .ok (signed negative (round (numerator significand exponent) (denominator exponent)))
  | infinite _ => .error .infinite
  | undefined => .error .undefined

/-- The integer part, rounded toward zero. -/
def truncate? : Exact → Except NumberError Int := toInt? (· / ·)

/-- The nearest integer, a half going to the even neighbour. -/
def nearest? : Exact → Except NumberError Int := toInt? roundDiv

/-- The number with at most so many bits in its significand, a half going to the even neighbour. -/
def roundBits (bits : Nat) : Exact → Exact
  | finite negative significand exponent =>
    let surplus := Nat.log2 significand + 1 - bits
    finite negative (roundDiv significand (Nat.pow 2 surplus)) (exponent + surplus)
  | other => other

/-- The greatest integer not above the number, zero for what is not finite. -/
def floor : Exact → Int
  | finite negative significand exponent =>
    (signed negative (numerator significand exponent)).fdiv (denominator exponent)
  | _ => 0

/-- Whether the number is a finite one. -/
def isFinite : Exact → Bool
  | finite .. => true
  | _ => false

/-- The integer that the number is equal to, if there is one. -/
def whole? : Exact → Option Int
  | finite negative significand exponent =>
    if numerator significand exponent % denominator exponent = 0 then
      some (signed negative (numerator significand exponent / denominator exponent))
    else none
  | _ => none

end Exact

/-- The float nearest to `± num / den`, for a positive `den`; infinite beyond the finite floats. -/
def quotientFloat (negative : Bool) (num den : Nat) (positive : 0 < den) : Float :=
  let sign : Float.Model.UnpackedFloat.Sign := if negative then .negative else .positive
  let ratio : Float.Model.UnpackedFloat :=
    if nonzero : 0 < num then
      Float.Model.UnpackedFloat.div .binary64 (.finite sign num 0 nonzero)
        (.finite .positive den 0 positive)
    else .zero sign
  Float.ofModel (Float.Model.pack ratio)

/-- The float nearest to the integer `n`, refused when it lies beyond the finite floats. -/
def wholeFloat? (n : Int) : Except NumberError Float :=
  let x := Float.ofInt n
  if (Exact.ofFloat x).isFinite then .ok x else .error .tooLarge

end Engraving
