import Engraving.Number.Exact

/-!
# Written forms of floats

A float is written with a fixed count of decimal places where a machine reads it, and with as few
digits as tell it apart where a person does.
-/

namespace Engraving

/-! ## Numbers with a fixed count of decimal places

The coordinates of a program are decimals with three places, a header shows lengths with two. Such
a number is kept as the count of its last place, so that sums and comparisons of printed numbers
are sums and comparisons of integers. A float is rounded to the nearest such number, a half going
to the even neighbour; the sign of the float is printed even when nothing is left of its digits.
-/

/-- A number printed with `places` decimal places. -/
inductive FixedPoint (places : Nat) where
  /-- The decimal `± units / 10 ^ places`. -/
  | finite (negative : Bool) (units : Nat)
  | infinite (negative : Bool)
  | undefined
  deriving DecidableEq, Repr

namespace FixedPoint

variable {places : Nat}

/-- The decimal nearest to the magnitude `num / den`, with the given sign. -/
def ofRatio (places : Nat) (negative : Bool) (num den : Nat) : FixedPoint places :=
  finite negative (roundDiv (num * Nat.pow 10 places) den)

/-- The decimal nearest to an exact number. -/
def ofExact (places : Nat) : Exact → FixedPoint places
  | .finite negative significand exponent =>
    ofRatio places negative (Exact.numerator significand exponent) (Exact.denominator exponent)
  | .infinite negative => infinite negative
  | .undefined => undefined

def ofFloat (places : Nat) (x : Float) : FixedPoint places := ofExact places (Exact.ofFloat x)

/-- The decimal nearest to a rational number. -/
def ofRat (places : Nat) (q : Rat) : FixedPoint places :=
  ofRatio places (decide (q < 0)) q.num.natAbs q.den

/-- The value as a rational number, for a finite decimal. -/
def value? : FixedPoint places → Option Rat
  | finite negative units =>
    let magnitude := mkRat units (Nat.pow 10 places)
    some (if negative then -magnitude else magnitude)
  | _ => none

def isFinite : FixedPoint places → Bool
  | finite .. => true
  | _ => false

def signText (negative : Bool) : String := if negative then "-" else ""

/-- Decimal digits, with zeros in front up to `width` digits. -/
def paddedDigits (width n : Nat) : String :=
  let digits := Nat.toDigits 10 n
  String.ofList (List.replicate (width - digits.length) '0' ++ digits)

def text : FixedPoint places → String
  | finite negative units =>
    signText negative ++ toString (units / Nat.pow 10 places) ++ "." ++
      paddedDigits places (units % Nat.pow 10 places)
  | infinite negative => signText negative ++ "inf"
  | undefined => "nan"

end FixedPoint

/-! ## The shortest decimal that reads back

A float is written with the fewest significant digits that still single it out among all floats,
and among the decimals with so few digits by the one nearest to it. Reading rounds to nearest, so a
decimal reads back as the float exactly when it lies in the float's rounding interval: from half
way to the neighbour below up to half way to the neighbour above, the end points included just when
the significand is even.

The interval is compared with the two decimals next to the float on the grid of one digit, of two
digits, and so on, in exact natural arithmetic. Seventeen digits always suffice.

The second half fixes how the digits are laid out: positionally while at most sixteen digits stand
before the point and at most three zeros between the point and the first digit, with an exponent
otherwise.
-/

/-- A decimal `digits * 10 ^ exponent`. -/
structure Decimal where
  digits : Nat
  /-- The power of ten that the last digit counts. -/
  exponent : Int
  deriving DecidableEq, Repr

namespace Shortest

/-- The exponent of the first decimal digit of `num / den`, for positive numerator and
denominator. -/
def leadingExponent (num den : Nat) : Int :=
  if den ≤ num then ((Nat.toDigits 10 (num / den)).length : Int) - 1
  else
    let shift := (Nat.toDigits 10 (den / num)).length
    if den ≤ num * Nat.pow 10 (shift - 1) then 1 - (shift : Int) else -(shift : Int)

/-- The reals that round to a float, as a pair of ends over a common denominator. -/
structure Interval where
  low : Nat
  /-- Numerator of the float itself. -/
  middle : Nat
  high : Nat
  den : Nat
  /-- Whether the ends round to the float too. -/
  closed : Bool

/-- The rounding interval of `significand * 2 ^ exponent`. Below a power of two the neighbour is
only half as far away, unless the float is among the smallest ones. -/
def Interval.ofFinite (significand : Nat) (exponent : Int) : Interval :=
  let num := Exact.numerator significand exponent
  let den := Exact.denominator exponent
  let gap := Exact.numerator 1 exponent
  let narrow : Bool := significand = Nat.pow 2 52 && -1074 < exponent
  { low := 4 * num - (if narrow then gap else 2 * gap)
    middle := 4 * num
    high := 4 * num + 2 * gap
    den := 4 * den
    closed := significand % 2 = 0 }

/-- Whether the decimal `n * 10 ^ exponent` lies in the interval. -/
def Interval.contains (i : Interval) (n : Nat) (exponent : Int) : Bool :=
  let scaled := n * Nat.pow 10 exponent.toNat * i.den
  let unit := Nat.pow 10 (-exponent).toNat
  if i.closed then i.low * unit ≤ scaled && scaled ≤ i.high * unit
  else i.low * unit < scaled && scaled < i.high * unit

/-- The decimal of the grid `10 ^ exponent` that reads back and is nearest to the middle. -/
def Interval.onGrid? (i : Interval) (exponent : Int) : Option Decimal :=
  let num := i.middle * Nat.pow 10 (-exponent).toNat
  let den := i.den * Nat.pow 10 exponent.toNat
  let below := num / den
  let nearest := roundDiv num den
  let other := if nearest = below then below + 1 else below
  if i.contains nearest exponent then some ⟨nearest, exponent⟩
  else if i.contains other exponent then some ⟨other, exponent⟩
  else none

/-- The first hit on the grids of `count` digits and more; `fuel` grids are tried. -/
def Interval.search (i : Interval) (leading : Int) : Nat → Nat → Decimal
  | 0, _ => ⟨0, 0⟩
  | fuel + 1, count =>
    match i.onGrid? (leading + 1 - count) with
    | some decimal => decimal
    | none => i.search leading fuel (count + 1)

/-- The shortest decimal that reads back as `significand * 2 ^ exponent`. -/
def decimal (significand : Nat) (exponent : Int) : Decimal :=
  if significand = 0 then ⟨0, 0⟩
  else
    let leading :=
      leadingExponent (Exact.numerator significand exponent) (Exact.denominator exponent)
    (Interval.ofFinite significand exponent).search leading 17 1

/-! ### Layout -/

/-- Digits without the zeros at their end. -/
def trimZeros (digits : List Char) : List Char := (digits.reverse.dropWhile (· == '0')).reverse

/-- The decimal point stands in or next to the digits. -/
def positional (digits : List Char) (point : Int) : String :=
  if point ≤ 0 then
    String.ofList ('0' :: '.' :: List.replicate (-point).toNat '0' ++ digits)
  else
    let padded := digits ++ List.replicate (point.toNat - digits.length) '0'
    let fraction := padded.drop point.toNat
    String.ofList
      (padded.take point.toNat ++ '.' :: (if fraction.isEmpty then ['0'] else fraction))

/-- One digit before the point, and an exponent of at least two digits. -/
def scientific (digits : List Char) (exponent : Int) : String :=
  let mantissa :=
    match digits with
    | first :: next :: rest => first :: '.' :: next :: rest
    | short => short
  let size := Nat.toDigits 10 exponent.natAbs
  String.ofList (mantissa ++ 'e' :: (if exponent < 0 then '-' else '+') ::
    (List.replicate (2 - size.length) '0' ++ size))

/-- The layout of a decimal; `point` counts the digits before the decimal point, and is negative
when zeros stand between the point and the first digit. -/
def layout (d : Decimal) : String :=
  if d.digits = 0 then "0.0"
  else
    let all := Nat.toDigits 10 d.digits
    let point := d.exponent + all.length
    let digits := trimZeros all
    if -4 < point ∧ point ≤ 16 then positional digits point
    else scientific digits (point - 1)

end Shortest

/-- A float written with the fewest digits that read back. -/
def shortestText (x : Float) : String :=
  match Exact.ofFloat x with
  | .finite negative significand exponent =>
    (if negative then "-" else "") ++ Shortest.layout (Shortest.decimal significand exponent)
  | .infinite negative => if negative then "-inf" else "inf"
  | .undefined => "nan"

end Engraving
