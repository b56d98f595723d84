/-!
# Characters of all scripts

Programs and configurations may be typed in any script. So digits, blanks and line ends are those of
the Unicode standard, and only hexadecimal digits are those of ASCII.
-/

namespace Engraving

/-! ## Decimal digits of all scripts

A number may be written in the digits of any script that has its own. Such digits stand in blocks
of ten, in order from zero to nine, so the table lists only the zeros.
-/

/-- The code points of the digits zero. -/
def digitZeros : List Nat := [
  48, 1632, 1776, 1984, 2406, 2534, 2662, 2790, 2918, 3046, 3174, 3302, 3430, 3558, 3664, 3792,
  3872, 4160, 4240, 6112, 6160, 6470, 6608, 6784, 6800, 6992, 7088, 7232, 7248, 42528, 43216,
  43264, 43472, 43504, 43600, 44016, 65296, 66720, 68912, 69734, 69872, 69942, 70096, 70384,
  70736, 70864, 71248, 71360, 71472, 71904, 72016, 72784, 73040, 73120, 92768, 92864, 93008,
  120782, 120792, 120802, 120812, 120822, 123200, 123632, 125264, 130032]

/-- The value of a decimal digit of any script. -/
def digitValue? (c : Char) : Option Nat :=
  let n := c.toNat
  if n < 128 then
    if 48 ≤ n && n ≤ 57 then some (n - 48) else none
  else (digitZeros.find? fun z ↦ z ≤ n && n ≤ z + 9).map fun z ↦ n - z

/-- Whether the character is a decimal digit of some script. -/
def isDigit (c : Char) : Bool := (digitValue? c).isSome

/-- The ASCII digits are digits, with their usual values. -/
theorem digitValue?_of_ascii {c : Char} (h : c.isDigit = true) :
    digitValue? c = some (c.toNat - 48) := by
  simp only [Char.isDigit, Bool.and_eq_true, decide_eq_true_eq] at h
  have low : 48 ≤ c.toNat := h.1
  have high : c.toNat ≤ 57 := h.2
  have small : c.toNat < 128 := by omega
  simp [digitValue?, low, high, small]

/-! ## Blanks

Programs and configurations may be typed in any script, so a blank is every character that the
Unicode standard counts as white space, together with the four ASCII separators. Text is cut at
blanks by the plain list functions `takeWhile` and `dropWhile`.
-/

/-- White space of any script. -/
def isBlank (c : Char) : Bool :=
  let n := c.toNat
  (9 ≤ n && n ≤ 13) || (28 ≤ n && n ≤ 32) || n = 0x85 || n = 0xA0 || n = 0x1680 ||
    (0x2000 ≤ n && n ≤ 0x200A) || n = 0x2028 || n = 0x2029 || n = 0x202F || n = 0x205F ||
    n = 0x3000

/-- Text without the blanks that it begins with. -/
def trimStart (text : List Char) : List Char := text.dropWhile isBlank

/-- Text without the blanks that it ends with. -/
def trimEnd (text : List Char) : List Char := (text.reverse.dropWhile isBlank).reverse

/-- Text without the blanks around it. -/
def trim (text : List Char) : List Char := trimEnd (trimStart text)

/-- The blank-free runs of `text`; `run` holds the run being read, reversed. -/
def blankFreeFrom (run : List Char) : List Char → List (List Char)
  | [] => if run.isEmpty then [] else [run.reverse]
  | c :: rest =>
    if isBlank c then
      if run.isEmpty then blankFreeFrom [] rest else run.reverse :: blankFreeFrom [] rest
    else blankFreeFrom (c :: run) rest

/-- The maximal runs of `text` that hold no blank, in order. -/
def blankFree (text : List Char) : List (List Char) := blankFreeFrom [] text

/-! ## Hexadecimal digits

Bytes, code points and colours are written in base sixteen. Digits beyond nine are read in both
cases and written in lower case.
-/

def hexDigit? (c : Char) : Option Nat :=
  if c.isDigit then some (c.toNat - 48)
  else if 'a' ≤ c && c ≤ 'f' then some (c.toNat - 87)
  else if 'A' ≤ c && c ≤ 'F' then some (c.toNat - 55)
  else none

/-- Whether a character is a hexadecimal digit. -/
def isHexDigit (c : Char) : Bool := (hexDigit? c).isSome

/-- The number that hexadecimal digits denote. -/
def hexValue (digits : List Char) : Nat :=
  digits.foldl (fun n c ↦ 16 * n + (hexDigit? c).getD 0) 0

/-- A number in hexadecimal digits, with zeros in front up to `width` digits. -/
def hexDigits (width n : Nat) : List Char :=
  let digits := Nat.toDigits 16 n
  List.replicate (width - digits.length) '0' ++ digits

/-! ## Lines

A line ends at a line feed, at a carriage return, at the two together, at the ASCII tabulations and
separators that move to a new line, and at the three line ends of Unicode. The line end is not part
of the line, and text that ends with one has no empty line after it.
-/

def isLineEnd (c : Char) : Bool :=
  let n := c.toNat
  (10 ≤ n && n ≤ 13) || (28 ≤ n && n ≤ 30) || n = 0x85 || n = 0x2028 || n = 0x2029

/-- The lines of `text` after the lines `done` and the characters `line` of the line being read,
both in reverse. -/
def linesFrom (done : List (List Char)) (line : List Char) : List Char → List (List Char)
  | [] => (if line.isEmpty then done else line.reverse :: done).reverse
  | '\r' :: '\n' :: rest => linesFrom (line.reverse :: done) [] rest
  | c :: rest =>
    if isLineEnd c then linesFrom (line.reverse :: done) [] rest
    else linesFrom done (c :: line) rest

/-- The lines of `text`, without their line ends. -/
def lines (text : List Char) : List (List Char) := linesFrom [] [] text

/-- Lines read earlier come first and change nothing else. -/
theorem linesFrom_append (done earlier : List (List Char)) (line text : List Char) :
    linesFrom (done ++ earlier) line text = earlier.reverse ++ linesFrom done line text := by
  fun_induction linesFrom done line text with
  | case1 done line => by_cases h : line.isEmpty <;> simp [linesFrom, h]
  | case2 done line rest ih => simpa [linesFrom] using ih
  | case3 done line c rest apart ends ih =>
    rw [linesFrom.eq_3 _ _ _ _ apart, if_pos ends]
    exact ih
  | case4 done line c rest apart inside ih =>
    rw [linesFrom.eq_3 _ _ _ _ apart, if_neg inside]
    exact ih

end Engraving
