import Engraving.Number.Reading

/-!
# Tags and forms

What a node stands for is told by its tag, and without one by the form of its text.
-/

namespace Engraving

/-! ## Tags of the YAML notation

A tag says what a node stands for. The notation has tags of its own, and a node without a tag gets
one of them; a node with any other tag has no meaning here.
-/

namespace Yaml

/-- What a node stands for. -/
inductive Tag where
  | null
  | bool
  | whole
  | real
  | bytes
  | date
  | text
  | list
  | pairs
  | set
  | mapping
  /-- As a key: other mappings whose entries belong to a mapping. -/
  | merge
  /-- As a key: the value that a mapping has by default. -/
  | default
  | other
  deriving DecidableEq, Repr

namespace Tag

/-- What the tags of the notation begin with. -/
def start : String := "tag:yaml.org,2002:"

def names : List (String × Tag) := [
  ("null", null), ("bool", bool), ("int", whole), ("float", real), ("binary", bytes),
  ("timestamp", date), ("str", text), ("seq", list), ("omap", pairs), ("pairs", pairs),
  ("set", set), ("map", mapping), ("merge", merge), ("value", default)]

def ofText (text : String) : Tag :=
  ((names.find? fun (name, _) ↦ text = start ++ name).map Prod.snd).getD other

end Tag

end Yaml

/-! ## Forms of plain scalars

What a plain scalar stands for is told by its form: the words for truth values and for no value,
integers in base two, eight, ten, sixteen or sixty, floats, which have a point and an exponent with
a sign, dates and instants. Everything else is text. A line feed at the end does not belong to the
form.
-/

namespace Yaml

/-- A text without the line feed that it may end with. -/
def dropFinalBreak (text : List Char) : List Char :=
  if text.getLast? = some '\n' then text.dropLast else text

/-! ### Forms of integers and floats -/

def unsigned : List Char → List Char
  | '+' :: rest => rest
  | '-' :: rest => rest
  | text => text

/-- A text that is not empty and holds only digits of a base and underscores. -/
def isDigitRun (base : Nat) (text : List Char) : Bool :=
  !text.isEmpty && text.all fun c ↦ c = '_' || (baseDigit? base c).isSome

/-- A digit, and then digits and underscores. -/
def isNumeral (text : List Char) : Bool :=
  (text.head?.any Char.isDigit) && isDigitRun 10 text

/-- A numeral that does not begin with zero. -/
def isPositiveNumeral (text : List Char) : Bool := isNumeral text && text.head? ≠ some '0'

/-- A place of base sixty: one digit, or two of which the first is below six. -/
def isSixtieth : List Char → Bool
  | [c] => c.isDigit
  | [c, d] => c.isDigit && c < '6' && d.isDigit
  | _ => false

/-- The parts of a text between colons. -/
def colonParts (text : List Char) : List (List Char) := text.splitOn ':'

/-- A number in base sixty, with two places at least. -/
def isSexagesimal (isFirst : List Char → Bool) (text : List Char) : Bool :=
  match colonParts text with
  | first :: second :: rest => isFirst first && (second :: rest).all isSixtieth
  | _ => false

def isWhole (text : List Char) : Bool :=
  match unsigned text with
  | '0' :: 'b' :: digits => isDigitRun 2 digits
  | '0' :: 'x' :: digits => isDigitRun 16 digits
  | '0' :: digits => digits.isEmpty || isDigitRun 8 digits
  | digits => isPositiveNumeral digits || isSexagesimal isPositiveNumeral digits

/-- Nothing, or an exponent with a sign. -/
def isExponent : List Char → Bool
  | [] => true
  | e :: sign :: digits =>
    (e = 'e' || e = 'E') && (sign = '+' || sign = '-') && !digits.isEmpty &&
      digits.all Char.isDigit
  | _ => false

/-- Digits and underscores, and perhaps an exponent. -/
def isFraction (text : List Char) : Bool :=
  isExponent (text.dropWhile fun c ↦ c = '_' || c.isDigit)

def isReal (text : List Char) : Bool :=
  let digits := unsigned text
  let whole := digits.takeWhile (· ≠ '.')
  match digits.dropWhile (· ≠ '.') with
  | _ :: fraction =>
    if whole.isEmpty then
      [['i', 'n', 'f'], ['I', 'n', 'f'], ['I', 'N', 'F']].contains fraction ||
        (digits.length = text.length &&
          ([['n', 'a', 'n'], ['N', 'a', 'N'], ['N', 'A', 'N']].contains fraction ||
            (fraction.head?.any Char.isDigit && isFraction fraction)))
    else
      (isNumeral whole && isFraction fraction) ||
        (isSexagesimal isNumeral whole && fraction.all fun c ↦ c = '_' || c.isDigit)
  | [] => false

/-! ### Forms of dates -/

inductive Zone where
  | missing
  | offset (minutes : Int)

/-- The time of day in a text. -/
structure TimeFields where
  hour : Nat
  minute : Nat
  second : Nat
  fraction : List Char
  offset? : Option Int

/-- The fields of a date or an instant in a text. -/
structure DateFields where
  year : Nat
  month : List Char
  day : List Char
  time? : Option TimeFields

/-- Reads so many digits, at least and at most. -/
def digitsOf? (least most : Nat) (text : List Char) : Option (List Char × List Char) :=
  let digits := (text.take most).takeWhile Char.isDigit
  if least ≤ digits.length then some (digits, text.drop digits.length) else none

/-- Drops a character from the front of a text. -/
def dropChar? (c : Char) : List Char → Option (List Char)
  | d :: rest => if c = d then some rest else none
  | [] => none

/-- A blank between the parts of an instant. -/
def isTimeBlank (c : Char) : Bool := c = ' ' || c = '\t'

/-- Reads a time zone, up to the end of the text. -/
def zoneOf? (text : List Char) : Option (Option Int) :=
  match text.dropWhile isTimeBlank with
  | [] => if text.isEmpty then some none else none
  | ['Z'] => some (some 0)
  | sign :: rest =>
    if sign = '+' || sign = '-' then do
      let (hours, rest) ← digitsOf? 1 2 rest
      let minutes ←
        match rest with
        | [] => some 0
        | rest => do
          let (minutes, rest) ← digitsOf? 2 2 (← dropChar? ':' rest)
          if rest.isEmpty then some (digitsValue minutes) else none
      some (some (Exact.signed (sign = '-') (digitsValue hours * 60 + minutes)))
    else none

/-- Reads a time of day, up to the end of the text. -/
def timeOf? (text : List Char) : Option TimeFields := do
  let (hour, rest) ← digitsOf? 1 2 text
  let (minute, rest) ← digitsOf? 2 2 (← dropChar? ':' rest)
  let (second, rest) ← digitsOf? 2 2 (← dropChar? ':' rest)
  let (fraction, rest) :=
    match rest with
    | '.' :: rest => (rest.takeWhile Char.isDigit, rest.dropWhile Char.isDigit)
    | rest => ([], rest)
  let offset? ← zoneOf? rest
  some ⟨digitsValue hour, digitsValue minute, digitsValue second, fraction, offset?⟩

/-- What follows the mark between a date and a time of day. -/
def afterDate? : List Char → Option (List Char)
  | c :: rest =>
    if c = 'T' || c = 't' then some rest
    else if isTimeBlank c then some (rest.dropWhile isTimeBlank)
    else none
  | [] => none

/-- Reads a date or an instant; a line feed may follow. -/
def dateOf? (text : List Char) : Option DateFields := do
  let (year, rest) ← digitsOf? 4 4 (dropFinalBreak text)
  let (month, rest) ← digitsOf? 1 2 (← dropChar? '-' rest)
  let (day, rest) ← digitsOf? 1 2 (← dropChar? '-' rest)
  let time? ← if rest.isEmpty then some none else (timeOf? (← afterDate? rest)).map some
  some ⟨digitsValue year, month, day, time?⟩

/-- The form of a date or an instant. The month and the day of a date alone have two digits. -/
def isDate (text : List Char) : Bool :=
  (dateOf? text).any fun d ↦ d.time?.isSome || (d.month.length = 2 && d.day.length = 2)

/-! ### Plain scalars -/

/-- The words for truth values, in lower case. -/
def boolWords : List (String × Bool) :=
  [("yes", true), ("no", false), ("true", true), ("false", false), ("on", true), ("off", false)]

/-- A word in lower case, in upper case, or with a capital. -/
def isCased (text word : String) : Bool :=
  text = word || text = String.ofList (word.toList.map Char.toUpper) || text = word.capitalize

/-- The tag of a text without the line feed that it may end with. -/
def Tag.ofForm (text : String) : Tag :=
  let chars := text.toList
  if boolWords.any fun (word, _) ↦ isCased text word then .bool
  else if isReal chars then .real
  else if isWhole chars then .whole
  else if text = "<<" then .merge
  else if text = "" || text = "~" || isCased text "null" then .null
  else if isDate chars then .date
  else if text = "=" then .default
  else if text = "!" || text = "&" || text = "*" then .other
  else .text

/-- The tag that a plain scalar has by its form. A line feed alone is a text. -/
def Tag.ofPlain (text : String) : Tag :=
  if text = "\n" then .text else .ofForm (String.ofList (dropFinalBreak text.toList))

end Yaml

end Engraving
