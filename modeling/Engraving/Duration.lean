import Engraving.Number.Quantity
import Engraving.Number.Writing

/-!
# Durations

How a duration is shown, and how long the scan of an image takes.
-/

namespace Engraving

/-! ## Durations as they are shown

A duration below a minute is shown in tenths of a second, a longer one in whole seconds, carried
over into minutes and, where there are any, hours. What lies before zero, or is no number, counts
as no time at all.
-/

/-- A duration in the fields in which it is shown. -/
inductive Duration where
  /-- Tenths of seconds. -/
  | seconds (seconds : FixedPoint 1)
  | minutes (minutes seconds : Nat)
  | hours (hours minutes seconds : Nat)
  deriving DecidableEq, Repr

namespace Duration

/-- A count of whole seconds in minutes and hours. -/
def ofWholeSeconds (n : Nat) : Duration :=
  if 0 < n / 3600 then hours (n / 3600) (n % 3600 / 60) (n % 3600 % 60)
  else minutes (n / 60) (n % 60)

/-- The duration of so many seconds; an infinite one has no fields. -/
def ofSeconds? (seconds : Float) : Except NumberError Duration :=
  let total : Float := if 0 < seconds then seconds else 0
  if total < 60 then .ok (.seconds (.ofFloat 1 total))
  else return ofWholeSeconds (← (Exact.ofFloat total).nearest?).toNat

def text : Duration → String
  | seconds s => s.text ++ "s"
  | minutes m s => toString m ++ "m " ++ FixedPoint.paddedDigits 2 s ++ "s"
  | hours h m s =>
    toString h ++ "h " ++ FixedPoint.paddedDigits 2 m ++ "m " ++ FixedPoint.paddedDigits 2 s ++ "s"

end Duration

/-- The text of a duration of so many seconds. -/
def durationText? (seconds : Quantity) : Except NumberError String :=
  return (← Duration.ofSeconds? (← seconds.toFloat?)).text

/-! ## The length and duration of a scan, in closed form

A scan of an image goes along every row once and down between neighbouring rows. Its length and its
duration can be told from the size of the image alone, without compiling it.
-/

section

variable {α : Type} [Checked α]

/-- The length of the path over an image of so many pixels on so many millimetres. -/
def engravingDistance? (pixelWidth pixelHeight width height : α) : Except NumberError α := do
  if Checked.isNonpositive pixelWidth || Checked.isNonpositive pixelHeight then
    return Checked.literal 0
  let lineStep ← Checked.div height pixelHeight
  let along ← Checked.mul width pixelHeight
  let down ← Checked.mul (← Checked.sub pixelHeight (Checked.ofWhole 1)) lineStep
  Checked.add along down

/-- The time that a path of the given length takes at a feed rate per minute, in seconds. -/
def engravingTime? (distance feedRate : α) : Except NumberError α := do
  if Checked.isNonpositive distance || Checked.isNonpositive feedRate then
    return Checked.literal 0
  Checked.div distance (← Checked.div feedRate (Checked.literal 60))

end

end Engraving
