import Engraving.Document.Conversion
import Engraving.Text.Encoding

/-!
# Scanning the YAML notation

A text is cut into tokens as far as they are asked for.

## Contents

- `Token`: what a text is cut into.
- `Cursor`: a place in a text that is read block by block.
- `Scanner`: a scan in progress; `Scan`: a step of one.
-/

namespace Engraving

/-! ## Tokens of the YAML notation

A text in the YAML notation, version 1.1, is cut into tokens. Indentation becomes tokens too: a
block collection begins where a deeper line begins with an entry or a key, and ends where a line is
less deep again.
-/

namespace Yaml

/-- A piece of a text in the YAML notation. -/
inductive Token where
  | version (major minor : Nat)
  | handle (handle expansion : String)
  | directive
  | documentStart
  | documentEnd
  /-- A deeper line begins with an entry. -/
  | blockSequenceStart
  | blockMappingStart
  /-- A line is less deep than a block collection. -/
  | blockEnd
  | flowSequenceStart
  | flowSequenceEnd
  | flowMappingStart
  | flowMappingEnd
  | blockEntry
  | flowEntry
  | key
  | value
  | alias (name : String)
  | anchor (name : String)
  | tag (handle? : Option String) (rest : String)
  /-- A scalar; `plain` when it is written without quotation marks and indicators. -/
  | scalar (plain : Bool) (text : String)
  | streamEnd
  deriving DecidableEq, Repr

end Yaml

/-! ## Places in a text in the YAML notation

A `Cursor` stands in a text that is read block by block. A block is read when it is asked for a
character in it and not before, so that a fault in a block comes after all faults that are met
without it. Every block may hold characters of the notation only.

The line and the column of the place are counted along.
-/

namespace Yaml

/-! ### Characters -/

def isBreak (c : Char) : Bool := c = '\n' || c = '\x85' || c = '\u2028' || c = '\u2029'

def isBreakOrEnd (c? : Option Char) : Bool := (c?.map isBreak).getD true

/-- A blank, or the end of the text or of a line. -/
def isSpaceOrEnd (c? : Option Char) : Bool := (c?.map fun c ↦ c = ' ' || isBreak c).getD true

/-- A blank or a tabulation, or the end of the text or of a line. -/
def isGapOrEnd (c? : Option Char) : Bool := c? = some '\t' || isSpaceOrEnd c?

def isNameChar (c : Char) : Bool := c.isAlphanum || c = '-' || c = '_'

/-- A character that may stand in a text in the YAML notation. -/
def isAllowed (c : Char) : Bool :=
  let n := c.toNat
  n = 9 || n = 10 || n = 13 || (0x20 ≤ n && n ≤ 0x7E) || n = 0x85 ||
    (0xA0 ≤ n && n ≤ 0xD7FF) || (0xE000 ≤ n && n ≤ 0xFFFD) || 0x10000 ≤ n

/-- The mark that some texts begin with. -/
def byteOrderMark : Char := '\ufeff'

/-! ### Cursors -/

structure Cursor where
  rest : List Char := []
  available : Nat := 0
  ahead : TextBlocks
  size : Nat := ahead.length
  index : Nat := 0
  line : Nat := 0
  column : Nat := 0

namespace Cursor

/-- Reads blocks until there is enough. -/
def readUntil (enough : Cursor → Bool) : TextBlocks → Cursor → Except YamlError Cursor
  | [], c => .ok { c with ahead := [] }
  | block :: ahead, c =>
    if enough c then .ok { c with ahead := block :: ahead }
    else
      match block with
      | .error e => .error (.encoding e)
      | .ok text =>
        if text.all isAllowed then
          readUntil enough ahead
            { c with rest := c.rest ++ text, available := c.available + text.length }
        else .error .malformed

/-- Reads blocks until there is enough, or all of them. -/
def reach (enough : Cursor → Bool) (c : Cursor) : Except YamlError Cursor :=
  if c.ahead.isEmpty then .ok c else readUntil enough c.ahead c

/-- Reads blocks until so many characters follow, or all of them. -/
def demand (n : Nat) (c : Cursor) : Except YamlError Cursor :=
  if n ≤ c.available then .ok c else c.reach (n ≤ ·.available)

/-- The place behind the next character. -/
def pass (c : Cursor) : Cursor :=
  match c.rest with
  | [] => c
  | d :: rest =>
    let c := { c with rest, available := c.available - 1, index := c.index + 1 }
    if isBreak d then { c with line := c.line + 1, column := 0 }
    else if d = byteOrderMark then c
    else { c with column := c.column + 1 }

/-- The place before the first character of a text. The mark that a text may begin with belongs to
no token. -/
def start (blocks : TextBlocks) : Except YamlError Cursor := do
  let c ← demand 1 { ahead := blocks.joinFirst }
  return if c.rest.head? = some byteOrderMark then c.pass else c

end Cursor

end Yaml

/-! ## Scans

A scan reads tokens from a text. They wait in a queue until they are taken.

A key needs no mark in front of it. So what may turn out to be a key is remembered by its place
among the tokens, one candidate for each level of brackets; when a colon follows on the same line,
not too far away, the tokens that begin the key and perhaps its mapping are put in at that place.
That is why a token that may begin a key is not taken before that is settled.
-/

namespace Yaml

/-- What may turn out to be a key. -/
structure KeyCandidate where
  place : Nat
  required : Bool
  index : Nat
  line : Nat
  column : Nat

structure Scanner where
  cursor : Cursor
  queue : Array Token := #[]
  taken : Nat := 0
  isDone : Bool := false
  /-- The column of the block collection that is open, if there is one. -/
  indent : Int := -1
  indents : List Int := []
  keyAllowed : Bool := true
  blockKey? : Option KeyCandidate := none
  flowKeys : List (Option KeyCandidate) := []

abbrev Scan := StateT Scanner (Except YamlError)

/-- How far apart a key and its colon may be. -/
def maxKeyLength : Nat := 1024

namespace Scan

def refuse {α : Type} : Scan α := throw .malformed

/-! ### Characters -/

def cursor : Scan Cursor := return (← get).cursor

/-- How many steps a repetition takes at most when every one of them passes a character. -/
def fuel : Scan Nat := return (← cursor).size + 2

def reach (enough : Cursor → Bool) : Scan Unit := do
  let s ← get
  unless s.cursor.ahead.isEmpty do set { s with cursor := ← s.cursor.reach enough }

/-- Reads on until so many characters follow. -/
def demand (n : Nat) : Scan Unit := do
  let s ← get
  unless n ≤ s.cursor.available do set { s with cursor := ← s.cursor.demand n }

def peek : Scan (Option Char) := do
  demand 1
  return (← cursor).rest.head?

/-- The character so many places ahead. -/
def peekAt (n : Nat) : Scan (Option Char) := do
  demand (n + 1)
  return (← cursor).rest[n]?

/-- Moves past some characters. The one behind them is looked at. -/
def skip (n : Nat) : Scan Unit := do
  demand (n + 1)
  modify fun s ↦ { s with cursor := n.repeat Cursor.pass s.cursor }

/-- Reads the characters up to the first that does not satisfy `p`. -/
def takeWhile (p : Char → Bool) : Scan (List Char) := do
  reach fun c ↦ c.rest.any (!p ·)
  let found := (← cursor).rest.takeWhile p
  skip found.length
  return found

/-- Moves past all characters that satisfy `p`. -/
def skipWhile (p : Char → Bool) : Scan Unit := do let _ ← takeWhile p

/-- Reads a number of hexadecimal digits. -/
def hexDigits (count : Nat) : Scan (List Char) := do
  reach fun c ↦ count ≤ c.available || (c.rest.take count).any (!isHexDigit ·)
  let digits := (← cursor).rest.take count
  unless digits.length = count && digits.all isHexDigit do refuse
  return digits

/-- Moves past a comment, if one begins here. -/
def skipComment : Scan Unit := do
  if (← peek) = some '#' then skipWhile (!isBreak ·)

/-- Reads the end of a line, if there is one; those of Unicode are kept apart. -/
def lineBreak : Scan (List Char) := do
  match ← peek with
  | some c =>
    if isBreak c then
      skip 1
      return [if c = '\x85' then '\n' else c]
    else return []
  | none => return []

/-- Moves past the rest of a line, which may hold a comment only. -/
def restOfLine : Scan Unit := do
  skipWhile (· = ' ')
  skipComment
  unless isBreakOrEnd (← peek) do refuse
  let _ ← lineBreak

/-- Whether the line goes on with three characters, each `c`, and a gap. -/
def atSeparator (c : Char) : Scan Bool := do
  demand 3
  if [c, c, c].isPrefixOf (← cursor).rest then return isGapOrEnd (← peekAt 3) else return false

/-- Whether a document begins or ends here. -/
def atDocumentBoundary : Scan Bool := do
  if ← atSeparator '-' then return true else atSeparator '.'

/-! ### Candidates for keys -/

/-- Whether there are brackets around the place. -/
def inFlow : Scan Bool := return !(← get).flowKeys.isEmpty

/-- The candidate of the innermost level of brackets. -/
def candidate? : Scan (Option KeyCandidate) := do
  let s ← get
  return match s.flowKeys with
    | [] => s.blockKey?
    | key? :: _ => key?

/-- Changes the candidate of the innermost level of brackets. -/
def setCandidate (key? : Option KeyCandidate) : Scan Unit :=
  modify fun s ↦
    match s.flowKeys with
    | [] => { s with blockKey? := key? }
    | _ :: outer => { s with flowKeys := key? :: outer }

/-- Gives the candidate up, unless it has to be a key. -/
def dropCandidate : Scan Unit := do
  match ← candidate? with
  | some key => if key.required then refuse
  | none => return
  setCandidate none

/-- Gives those candidates up that lie on another line or too far back. -/
def dropStale : Scan Unit := do
  let s ← get
  let c := s.cursor
  let isStale (key : KeyCandidate) : Bool :=
    key.line ≠ c.line || key.index + maxKeyLength < c.index
  let keep (key? : Option KeyCandidate) := key?.filter (!isStale ·)
  if (s.blockKey?.filter isStale).any (·.required) then refuse
  if s.blockKey?.any isStale || s.flowKeys.any (·.any isStale) then
    set { s with blockKey? := keep s.blockKey?, flowKeys := s.flowKeys.map keep }

def saveCandidate : Scan Unit := do
  if (← get).keyAllowed then
    dropCandidate
    let s ← get
    let c := s.cursor
    let required := s.flowKeys.isEmpty && s.indent = c.column
    setCandidate (some ⟨s.taken + s.queue.size, required, c.index, c.line, c.column⟩)

/-- Tells whether a key may begin after this. -/
def allowKey (allowed : Bool) : Scan Unit := modify fun s ↦ { s with keyAllowed := allowed }

/-! ### Tokens -/

def emit (t : Token) : Scan Unit := modify fun s ↦ { s with queue := s.queue.push t }

def emitAt (place : Nat) (t : Token) : Scan Unit :=
  modify fun s ↦ { s with queue := s.queue.insertIdxIfInBounds (place - s.taken) t }

/-- Moves past an indicator of one character and adds its token. -/
def indicator (t : Token) : Scan Unit := do
  skip 1
  emit t

/-! ### Depth -/

/-- Ends the block collections that lie deeper than a column; the columns of those around the
innermost one are given from inside to outside. -/
def unwindFrom (column : Int) : Int → List Int → Scan Unit
  | indent, [] => modify fun s ↦ { s with indent, indents := [] }
  | indent, next :: outer =>
    if indent ≤ column then modify fun s ↦ { s with indent, indents := next :: outer }
    else do
      emit .blockEnd
      unwindFrom column next outer

/-- Ends the block collections that lie deeper than a column, unless there are brackets. -/
def unwind (column : Int) : Scan Unit := do
  let s ← get
  if s.flowKeys.isEmpty then unwindFrom column s.indent s.indents

/-- Opens a block collection at a column; returns whether that is deeper than the open one. -/
def openBlock (column : Nat) : Scan Bool := do
  let s ← get
  if s.indent < column then
    set { s with indents := s.indent :: s.indents, indent := (column : Int) }
    return true
  else return false

end Scan

end Yaml

end Engraving
