import Engraving.Document.Value
import Engraving.Number.Quantity
import Engraving.Number.Reading
import Engraving.Number.Writing
import Engraving.Text.Encoding
import Engraving.Text.Quoted

/-!
# Values of documents as numbers and texts

What is made of a document's values, and how a document comes about in the first place.
-/

namespace Engraving

/-! ## Numbers from document values

Where a number is wanted, a document may also hold a truth value, which counts as zero or one, or a
text or bytes that denote the number; bytes do so in ASCII only. An integer can be taken from a
float, which loses its fraction.
-/

inductive ConversionError where
  /-- A text, which is shown in quotation marks, denotes no integer. -/
  | notWhole (shown : String) (error : WholeError)
  | notReal (shown : String)
  /-- A number has no counterpart of the wanted kind. -/
  | number (error : NumberError)
  | kind
  deriving DecidableEq, Repr

namespace ConversionError

/-- How much of a text that is no integer is shown, quotation marks included. -/
def shownLength : Nat := 200

/-- The wording of a conversion error. -/
def message : ConversionError → String
  | notWhole shown (.malformed base) =>
    "invalid literal for int() with base " ++ toString base ++ ": " ++
      String.ofList (shown.toList.take shownLength)
  | notWhole _ (.tooLong count) =>
    "Exceeds the limit (" ++ toString NumberError.maxDigits ++
      " digits) for integer string conversion: value has " ++ toString count ++
      " digits; use sys.set_int_max_str_digits() to increase the limit"
  | notReal shown => "could not convert string to float: " ++ shown
  | number error => error.message
  | kind => "not a number"

end ConversionError

/-- The integer that a text denotes in a base. -/
def wholeOfText? (base : Nat) (text : String) : Except ConversionError Int :=
  (readWhole? base text.toList).mapError (.notWhole (quoted text))

def realOfText? (text : String) : Except ConversionError Float :=
  match readFloat? text.toList with
  | some x => .ok x
  | none => .error (.notReal (quoted text))

/-- The characters of a number in bytes. Those that are not ASCII belong to no number. -/
def numberChars (bytes : List UInt8) : List Char :=
  bytes.map fun b ↦ if b < 0x80 then Char.ofUInt8 b else '?'

namespace Document

/-- The integer that a value stands for. -/
def toWhole? : Document → Except ConversionError Int
  | bool b => .ok (if b then 1 else 0)
  | whole n => .ok n
  | real x => (Exact.ofFloat x).truncate?.mapError .number
  | unknown _ => .error (.number .undefined)
  | text s => wholeOfText? 10 s
  | bytes b => (readWhole? 10 (numberChars b)).mapError (.notWhole (quotedBytes b))
  | _ => .error .kind

/-- The float that a value stands for. -/
def toReal? : Document → Except ConversionError Float
  | bool b => .ok (if b then 1 else 0)
  | whole n => (wholeFloat? n).mapError .number
  | real x => .ok x
  | unknown _ => .ok undefinedFloat
  | text s => realOfText? s
  | bytes b =>
    match readFloat? (numberChars b) with
    | some x => .ok x
    | none => .error (.notReal (quotedBytes b))
  | _ => .error .kind

end Document

/-! ## Written forms of documents

A value is written with the brackets of its kind, and the texts in it are quoted. A list or a
mapping that contains itself is cut off where it would begin again. No form has an integer with too
many digits.
-/

namespace Document

/-- Some written forms between two brackets. -/
def bracketed (opening closing : String) (parts : List String) : String :=
  opening ++ ", ".intercalate parts ++ closing

mutual

/-- A value as it is written inside of collections; `spelledPlace?` writes the collection at a
place. -/
def spelledWith? (spelledPlace? : Nat → Except NumberError String) :
    Document → Except NumberError String
  | null => .ok "None"
  | bool b => .ok (if b then "True" else "False")
  | whole n => wholeText? n
  | real x => .ok (shortestText x)
  | unknown _ => .ok "nan"
  | text s => .ok (quoted s)
  | bytes b => .ok (quotedBytes b)
  | date d => .ok d.spelled
  | instant i => .ok i.spelled
  | pair first second => do
    .ok (bracketed "(" ")"
      [← spelledWith? spelledPlace? first, ← spelledWith? spelledPlace? second])
  | list items => return bracketed "[" "]" (← spelledItems? spelledPlace? items)
  | set [] => .ok "set()"
  | set members => return bracketed "\x7b" "\x7d" (← spelledItems? spelledPlace? members)
  | mapping entries => return bracketed "\x7b" "\x7d" (← spelledEntries? spelledPlace? entries)
  | shared place => spelledPlace? place

/-- The items of a list as they are written. -/
def spelledItems? (spelledPlace? : Nat → Except NumberError String) :
    List Document → Except NumberError (List String)
  | [] => .ok []
  | item :: rest => do
    let shown ← spelledWith? spelledPlace? item
    return shown :: (← spelledItems? spelledPlace? rest)

/-- The entries of a mapping as they are written. -/
def spelledEntries? (spelledPlace? : Nat → Except NumberError String) :
    List (Document × Document) → Except NumberError (List String)
  | [] => .ok []
  | entry :: rest => do
    let shown ← spelledEntry? spelledPlace? entry
    return shown :: (← spelledEntries? spelledPlace? rest)

/-- An entry of a mapping as it is written. -/
def spelledEntry? (spelledPlace? : Nat → Except NumberError String) :
    Document × Document → Except NumberError String
  | (key, value) => do
    let shown ← spelledWith? spelledPlace? key
    return shown ++ ": " ++ (← spelledWith? spelledPlace? value)

end

/-- What is written for a collection within itself. -/
def cutText : Document → String
  | list _ => "[...]"
  | _ => "\x7b...\x7d"

/-- The collection at a place as it is written within the collections at some other places, which
are not written again. As these differ, fuel beyond the size of the store is never used up. -/
def spelledPlace? (store : Store) : Nat → List Nat → Nat → Except NumberError String
  | 0, _, place => .ok (cutText (store[place]?.getD null))
  | fuel + 1, around, place =>
    let value := store[place]?.getD null
    if around.contains place then .ok (cutText value)
    else spelledWith? (spelledPlace? store fuel (place :: around)) value

/-- A value as it is written inside of collections. -/
def spelled? (store : Store) : Document → Except NumberError String :=
  spelledWith? (spelledPlace? store (store.size + 1) [])

/-- A value as it is written by itself: a text stands without quotation marks. -/
def plainText? (store : Store) : Document → Except NumberError String
  | text s => .ok s
  | date d => .ok d.text
  | instant i => .ok i.text
  | other => other.spelled? store

end Document

/-! ## Reading documents

A document is read by a library from the bytes of a file, which are text in the YAML notation. Of
the library nothing is assumed here but what comes out of it: a document and its collections, or a
failure.

A text is refused at the first fault that is met. Most of them are offences against the notation,
and these are not told apart. The others arise from what is written in it: numbers, dates and
characters that do not exist, or bytes that are no text.
-/

/-- Why a text in the YAML notation is refused. -/
inductive YamlError where
  /-- The notation is not kept, or says something that makes no document. -/
  | malformed
  | encoding (error : Utf8Error)
  | character (code : Nat)
  | conversion (error : ConversionError)
  /-- A scalar that has to be a number has neither digits nor anything else. -/
  | noDigits
  | notBool (text : String)
  | notDate
  /-- A mapping stands for its default value where a date or an instant has to be. -/
  | dateKind
  | date (error : DateError)
  | tooDeep
  deriving DecidableEq, Repr

/-- The wording of a fault in a text in the YAML notation. -/
def YamlError.message : YamlError → String
  | malformed => "not a document in the YAML notation"
  | encoding error => error.message
  | character code => "no character has the number " ++ toString code
  | conversion error => error.message
  | noDigits => "a number without digits"
  | notBool text => "neither true nor false: " ++ text
  | notDate => "neither a date nor an instant"
  | dateKind => "a mapping is no date"
  | date error => error.message
  | tooDeep => "maximum recursion depth exceeded"

class DocumentReader where
  document? (bytes : List UInt8) : Except YamlError (Document × Store)

end Engraving
