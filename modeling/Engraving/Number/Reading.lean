import Engraving.Number.Exact
import Engraving.Text.Character

/-!
# Reading numbers

A number may stand between blanks, be written in the digits of any script, and have single
underscores between digits. Such text is brought to ASCII first (`plainText`), and a character that
belongs to no number becomes a question mark, which no grammar below accepts. The four ASCII
separators are white space but do not count as blanks around a number.

Floats have a whole part, a fraction or both, an optional exponent, or are one of the names of
infinity and of no number. A decimal is rounded once, to the nearest float.
-/

namespace Engraving

/-- A blank that may stand around a number. -/
def isNumberBlank (c : Char) : Bool := c = ' ' || (9 ≤ c.toNat && c.toNat ≤ 13)

/-- The ASCII character that stands for `c` in a number. -/
def plainChar (c : Char) : Char :=
  if c.toNat < 127 then c
  else if isBlank c then ' '
  else
    match digitValue? c with
    | some d => Char.ofNat (48 + d)
    | none => '?'

/-- The text of a number in ASCII, without the blanks around it. -/
def plainText (text : List Char) : List Char :=
  let plain := (text.map plainChar).dropWhile isNumberBlank
  (plain.reverse.dropWhile isNumberBlank).reverse

/-- Removes the underscores, each of which has to stand between two digits; `afterDigit` tells
whether the character before was a digit. -/
def dropUnderscores (isDigit : Char → Bool) : Bool → List Char → Option (List Char)
  | _, [] => some []
  | afterDigit, c :: rest =>
    if c = '_' then
      match rest with
      | next :: _ => if afterDigit && isDigit next then dropUnderscores isDigit false rest else none
      | [] => none
    else (dropUnderscores isDigit (isDigit c) rest).map (c :: ·)

/-- Splits a sign off; the flag tells a minus. -/
def splitSign : List Char → Bool × List Char
  | '-' :: rest => (true, rest)
  | '+' :: rest => (false, rest)
  | text => (false, text)

/-- The number that ASCII digits denote in base ten. -/
def digitsValue (digits : List Char) : Nat :=
  digits.foldl (fun n c ↦ 10 * n + (c.toNat - 48)) 0

/-! ## Floats -/

/-- The float nearest to `digits * 10 ^ exponent`. -/
def decimalFloat (digits : Nat) (exponent : Int) : Float :=
  Float.ofScientific digits (exponent < 0) exponent.natAbs

/-- The exponent that follows the digits of a number, zero where nothing follows. -/
def readExponent? : List Char → Option Int
  | [] => some 0
  | c :: rest =>
    let (negative, digits) := splitSign rest
    if (c = 'e' || c = 'E') && !digits.isEmpty && digits.all Char.isDigit then
      some (Exact.signed negative (digitsValue digits))
    else none

def readDecimal? (text : List Char) : Option Float :=
  let whole := text.takeWhile Char.isDigit
  let afterWhole := text.dropWhile Char.isDigit
  let (fraction, afterFraction) :=
    match afterWhole with
    | '.' :: rest => (rest.takeWhile Char.isDigit, rest.dropWhile Char.isDigit)
    | _ => ([], afterWhole)
  if whole.isEmpty && fraction.isEmpty then none
  else
    (readExponent? afterFraction).map fun exponent ↦
      decimalFloat (digitsValue (whole ++ fraction)) (exponent - fraction.length)

def infiniteFloat : Float := Float.ofModel (Float.Model.pack (.infinity .positive))

def undefinedFloat : Float := Float.ofModel (Float.Model.pack .notANumber)

/-- A float without a sign, given in ASCII. -/
def readMagnitude? (text : List Char) : Option Float :=
  let name := String.ofList (text.map Char.toLower)
  if name = "inf" || name = "infinity" then some infiniteFloat
  else if name = "nan" then some undefinedFloat
  else readDecimal? text

def readFloat? (text : List Char) : Option Float := do
  let plain ← dropUnderscores Char.isDigit false (plainText text)
  let (negative, rest) := splitSign plain
  let magnitude ← readMagnitude? rest
  some (if negative then -magnitude else magnitude)

/-! ## Integers -/

inductive WholeError where
  | malformed (base : Nat)
  | tooLong (count : Nat)
  deriving DecidableEq, Repr

/-- The value of an ASCII digit or letter as a digit in some base. -/
def baseDigit? (base : Nat) (c : Char) : Option Nat :=
  let value? :=
    if c.isDigit then some (c.toNat - 48)
    else if 'a' ≤ c && c ≤ 'z' then some (c.toNat - 87)
    else if 'A' ≤ c && c ≤ 'Z' then some (c.toNat - 55)
    else none
  value?.filter (· < base)

/-- The mark that may stand before the digits of a base other than ten. -/
def baseMark? (base : Nat) : Option Char :=
  if base = 2 then some 'b' else if base = 8 then some 'o' else if base = 16 then some 'x' else none

/-- Drops a zero and the mark of the base from the front of a text. -/
def dropBaseMark (base : Nat) : List Char → List Char
  | '0' :: c :: rest => if baseMark? base = some c.toLower then rest else '0' :: c :: rest
  | text => text

/-- The integer that a text denotes in a base. The digits come first, and too many of them are
refused before it is looked at what follows them. -/
def readWhole? (base : Nat) (text : List Char) : Except WholeError Int :=
  let (negative, rest) := splitSign (plainText text)
  let isDigit := fun c ↦ (baseDigit? base c).isSome
  let digits := dropBaseMark base rest
  let isPlace := fun c ↦ isDigit c || c = '_'
  match dropUnderscores isDigit false (digits.takeWhile isPlace) with
  | none => .error (.malformed base)
  | some places =>
    if places.isEmpty then .error (.malformed base)
    else if base = 10 && NumberError.maxDigits < places.length then
      .error (.tooLong places.length)
    else if !(digits.dropWhile isPlace).isEmpty then .error (.malformed base)
    else
      let magnitude := places.foldl (fun n c ↦ base * n + (baseDigit? base c).getD 0) 0
      .ok (Exact.signed negative magnitude)

end Engraving
