import Engraving.Number.Reading
import Engraving.Text.Case

/-!
# Words of a line

A line of a program is a list of words, each an address letter with a value: `G1X-2.5S300` holds
three. Words need no blanks between them, so a letter begins the next one, with one exception: an E
directly after the digits of a value, with digits of its own, is the exponent of that value. What
else stands after a letter belongs to its value too, and is found wanting when the value is read.

Comments go from a semicolon to the end of the line, or stand in parentheses that may stay open.
-/

namespace Engraving

/-- An address letter and the text that follows it. -/
structure Word where
  /-- The letter, in upper case. -/
  letter : Char
  value : List Char
  deriving DecidableEq, Repr

namespace Word

def isAddress (c : Char) : Bool := c.isUpper

/-- The text after the parenthesis that closes a comment. -/
def afterComment (text : List Char) : List Char := (text.dropWhile (· ≠ ')')).drop 1

theorem length_afterComment (text : List Char) : (afterComment text).length ≤ text.length := by
  have := (List.dropWhile_suffix (l := text) fun c ↦ decide (c ≠ ')')).length_le
  simp only [afterComment, List.length_drop]
  omega

/-- A blank for every comment in parentheses. -/
def blankComments : List Char → List Char
  | [] => []
  | c :: rest =>
    if c = '(' then ' ' :: blankComments (afterComment rest) else c :: blankComments rest
termination_by text => text.length
decreasing_by
  · have := length_afterComment rest
    simp only [List.length_cons]
    omega
  · simp

def stripComments (line : List Char) : List Char :=
  blankComments (line.takeWhile (· ≠ ';'))

/-- Cuts a text after the longest front that satisfies `p`. -/
def cutWhile (p : Char → Bool) (text : List Char) : List Char × List Char :=
  (text.takeWhile p, text.dropWhile p)

def cutSign : List Char → List Char × List Char
  | c :: rest => if c = '-' || c = '+' then ([c], rest) else ([], c :: rest)
  | [] => ([], [])

/-- Cuts off an exponent, if there is one: an E, perhaps a sign, and digits. -/
def cutExponent : List Char → List Char × List Char
  | c :: rest =>
    let (sign, unsigned) := cutSign rest
    let (digits, after) := cutWhile Char.isDigit unsigned
    if c = 'E' && !digits.isEmpty then (c :: sign ++ digits, after) else ([], c :: rest)
  | [] => ([], [])

def cutValue (text : List Char) : List Char × List Char :=
  let (sign, unsigned) := cutSign text
  let (digits, afterDigits) := cutWhile (fun c ↦ c.isDigit || c = '.') unsigned
  let (exponent, afterExponent) := cutExponent afterDigits
  let (filler, after) := cutWhile (fun c ↦ !isAddress c) afterExponent
  (sign ++ digits ++ exponent ++ filler, after)

theorem cutWhile_append (p : Char → Bool) (text : List Char) :
    (cutWhile p text).1 ++ (cutWhile p text).2 = text := List.takeWhile_append_dropWhile

theorem cutSign_append (text : List Char) : (cutSign text).1 ++ (cutSign text).2 = text := by
  cases text with
  | nil => rfl
  | cons c rest =>
    rw [cutSign]
    split <;> rfl

theorem cutExponent_append (text : List Char) :
    (cutExponent text).1 ++ (cutExponent text).2 = text := by
  cases text with
  | nil => rfl
  | cons c rest =>
    simp only [cutExponent]
    split
    · simp [cutWhile_append, cutSign_append]
    · rfl

theorem cutValue_append (text : List Char) : (cutValue text).1 ++ (cutValue text).2 = text := by
  simp [cutValue, cutWhile_append, cutExponent_append, cutSign_append]

theorem length_cutValue (text : List Char) : (cutValue text).2.length ≤ text.length := by
  have := congrArg List.length (cutValue_append text)
  simp only [List.length_append] at this
  omega

/-- The words of a text without blanks. -/
def ofRun : List Char → List Word
  | [] => []
  | c :: rest =>
    if isAddress c then ⟨c, (cutValue rest).1⟩ :: ofRun (cutValue rest).2 else ofRun rest
termination_by text => text.length
decreasing_by
  · have := length_cutValue rest
    simp only [List.length_cons]
    omega
  · simp

/-- The words of a text in upper case without comments. -/
def ofCode (code : List Char) : List Word := (blankFree code).flatMap ofRun

/-- The words of a line without comments, in which the case of letters does not matter. -/
def ofText (text : List Char) : List Word := ofCode (upperCase text)

def ofLine (line : List Char) : List Word := ofText (stripComments line)

/-- The finite number that the value denotes. -/
def number? (w : Word) : Option Float :=
  (readFloat? w.value).filter fun x ↦ (Exact.ofFloat x).isFinite

/-- The integer that the value denotes. -/
def code? (w : Word) : Option Int :=
  (readFloat? w.value).bind fun x ↦ (Exact.ofFloat x).whole?

end Word

end Engraving
