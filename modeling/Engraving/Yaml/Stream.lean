import Engraving.Yaml.ScalarText
import Engraving.Yaml.Scanner

/-!
# The tokens of a text

Every token is told by its first characters. The tokens are read one after the other when they are
asked for.
-/

namespace Engraving

/-! ## Directives, names and tags

What stands before the content of a document or of a node: directives, which tell the version of the
notation and what the handles of tags stand for, the names of nodes, and their tags.
-/

namespace Yaml.Scan

/-! ### Tags -/

/-- Reads a byte in two hexadecimal digits. -/
def hexByte : Scan UInt8 := do
  let digits ← hexDigits 2
  skip 2
  return UInt8.ofNat (hexValue digits)

/-- Reads bytes that are written as a percent sign and two digits each. -/
def percentBytes : Nat → Scan (List UInt8)
  | 0 => return []
  | fuel + 1 => do
    if (← peek) = some '%' then
      skip 1
      let byte ← hexByte
      return byte :: (← percentBytes fuel)
    else return []

/-- A character of a tag, other than a percent sign. -/
def isTagChar (c : Char) : Bool :=
  c.isAlphanum || ['-', ';', '/', '?', ':', '@', '&', '=', '+', '$', ',', '_', '.', '!', '~', '*',
    '\'', '(', ')', '[', ']'].contains c

/-- Reads the characters of a tag, some of them perhaps as bytes. -/
def tagChars : Nat → Scan (List Char)
  | 0 => return []
  | fuel + 1 => do
    let plain ← takeWhile isTagChar
    if (← peek) = some '%' then
      match Utf8.decode (← percentBytes (fuel + 1)) with
      | .ok chars => return plain ++ chars ++ (← tagChars fuel)
      | .error _ => refuse
    else return plain

/-- Reads a tag, or what follows its handle. -/
def tagText : Scan String := do
  let chars ← tagChars (← fuel)
  if chars.isEmpty then refuse
  return String.ofList chars

/-- Reads the handle of a tag: one exclamation mark, or a name between two. -/
def tagHandle : Scan String := do
  unless (← peek) = some '!' do refuse
  if (← peekAt 1) = some ' ' then
    skip 1
    return "!"
  skip 1
  let name ← takeWhile isNameChar
  unless (← peek) = some '!' do refuse
  skip 1
  return String.ofList ('!' :: name ++ ['!'])

/-- Whether a second exclamation mark follows before the next blank. -/
def hasHandle : Scan Bool := do
  let isInside (c : Char) := !isSpaceOrEnd (some c) && c ≠ '!'
  reach fun c ↦ (c.rest.drop 1).any (!isInside ·)
  return ((← cursor).rest.drop 1).find? (!isInside ·) = some '!'

def tag : Scan Unit := do
  saveCandidate
  allowKey false
  let next ← peekAt 1
  let token ←
    if next = some '<' then
      skip 2
      let text ← tagText
      unless (← peek) = some '>' do refuse
      skip 1
      pure (Token.tag none text)
    else if isGapOrEnd next then
      skip 1
      pure (Token.tag none "!")
    else if ← hasHandle then
      let handle ← tagHandle
      pure (Token.tag (some handle) (← tagText))
    else
      skip 1
      pure (Token.tag (some "!") (← tagText))
  unless isSpaceOrEnd (← peek) do refuse
  emit token

/-! ### Names -/

/-- A character that may follow a name. -/
def followsName (c? : Option Char) : Bool :=
  isGapOrEnd c? ||
    (c?.map fun c ↦ ['?', ':', ',', ']', '\x7d', '%', '@', '\x60'].contains c).getD true

/-- Reads the name after its indicator. -/
def name (token : String → Token) : Scan Unit := do
  saveCandidate
  allowKey false
  skip 1
  let name ← takeWhile isNameChar
  if name.isEmpty then refuse
  unless followsName (← peek) do refuse
  emit (token (String.ofList name))

/-! ### Directives -/

def number : Scan Nat := do
  let digits ← takeWhile Char.isDigit
  if digits.isEmpty then refuse
  match wholeOfText? 10 (String.ofList digits) with
  | .ok n => return n.toNat
  | .error e => throw (.conversion e)

/-- Reads what follows the name of a directive. -/
def directiveValue (name : String) : Scan Token := do
  if name = "YAML" then
    skipWhile (· = ' ')
    let major ← number
    unless (← peek) = some '.' do refuse
    skip 1
    let minor ← number
    unless isSpaceOrEnd (← peek) do refuse
    return .version major minor
  else if name = "TAG" then
    skipWhile (· = ' ')
    let handle ← tagHandle
    unless (← peek) = some ' ' do refuse
    skipWhile (· = ' ')
    let expansion ← tagText
    unless isSpaceOrEnd (← peek) do refuse
    return .handle handle expansion
  else
    skipWhile (!isBreak ·)
    return .directive

def directive : Scan Unit := do
  unwind (-1)
  dropCandidate
  allowKey false
  skip 1
  let name ← takeWhile isNameChar
  if name.isEmpty then refuse
  unless isSpaceOrEnd (← peek) do refuse
  let token ← directiveValue (String.ofList name)
  restOfLine
  emit token

def documentBoundary (t : Token) : Scan Unit := do
  unwind (-1)
  dropCandidate
  allowKey false
  skip 3
  emit t

end Yaml.Scan

/-! ## The stream of tokens

Tokens are read from a text when they are asked for. Of those that wait, the first may be taken once
it is settled that no key begins with it.
-/

namespace Yaml.Scan

/-! ### Indicators -/

def flowStart (t : Token) : Scan Unit := do
  saveCandidate
  modify fun s ↦ { s with flowKeys := none :: s.flowKeys }
  allowKey true
  indicator t

def flowEnd (t : Token) : Scan Unit := do
  dropCandidate
  match (← get).flowKeys with
  | [] => refuse
  | _ :: outer => modify fun s ↦ { s with flowKeys := outer }
  allowKey false
  indicator t

def flowEntry : Scan Unit := do
  allowKey true
  dropCandidate
  indicator .flowEntry

/-- A token that may open a block collection at its column. -/
def blockIndicator (start : Token) : Scan Unit := do
  unless ← inFlow do
    unless (← get).keyAllowed do refuse
    if ← openBlock (← cursor).column then emit start

def blockEntry : Scan Unit := do
  blockIndicator .blockSequenceStart
  allowKey true
  dropCandidate
  indicator .blockEntry

def key : Scan Unit := do
  blockIndicator .blockMappingStart
  allowKey !(← inFlow)
  dropCandidate
  indicator .key

def value : Scan Unit := do
  match ← candidate? with
  | some key =>
    setCandidate none
    emitAt key.place .key
    unless ← inFlow do
      if ← openBlock key.column then emitAt key.place .blockMappingStart
    allowKey false
  | none =>
    blockIndicator .blockMappingStart
    allowKey !(← inFlow)
    dropCandidate
  indicator .value

/-! ### Reading on -/

/-- Moves past blanks, comments and ends of lines up to the next token. -/
def toNextToken : Nat → Scan Unit
  | 0 => return
  | fuel + 1 => do
    skipWhile (· = ' ')
    skipComment
    let found ← lineBreak
    if found.isEmpty then return
    unless ← inFlow do allowKey true
    toNextToken fuel

/-- The characters that begin no plain scalar. -/
def indicators : List Char :=
  ['-', '?', ':', ',', '[', ']', '\x7b', '\x7d', '#', '&', '*', '!', '|', '>', '\'', '"', '%', '@',
    '\x60']

/-- Whether a plain scalar begins with a character. -/
def startsPlain (c : Char) : Scan Bool := do
  if !isGapOrEnd (some c) && !indicators.contains c then return true
  else if isGapOrEnd (← peekAt 1) then return false
  else return c = '-' || (!(← inFlow) && (c = '?' || c = ':'))

/-- Whether a character is an indicator: it has a gap behind it, unless there are brackets. -/
def isIndicator : Scan Bool := do
  if ← inFlow then return true else return isGapOrEnd (← peekAt 1)

/-- Reads the next token, which begins with a character. -/
def token (c : Char) : Scan Unit := do
  let inFlow ← inFlow
  let atStart := (← cursor).column = 0
  if c = '%' && atStart then directive
  else if c = '-' && atStart && (← atSeparator '-') then documentBoundary .documentStart
  else if c = '.' && atStart && (← atSeparator '.') then documentBoundary .documentEnd
  else if c = '[' then flowStart .flowSequenceStart
  else if c = '\x7b' then flowStart .flowMappingStart
  else if c = ']' then flowEnd .flowSequenceEnd
  else if c = '\x7d' then flowEnd .flowMappingEnd
  else if c = ',' then flowEntry
  else if c = '-' && isGapOrEnd (← peekAt 1) then blockEntry
  else if c = '?' && (← isIndicator) then key
  else if c = ':' && (← isIndicator) then value
  else if c = '*' then name .alias
  else if c = '&' then name .anchor
  else if c = '!' then tag
  else if c = '|' && !inFlow then blockScalar false
  else if c = '>' && !inFlow then blockScalar true
  else if c = '\'' || c = '"' then quotedScalar c
  else if ← startsPlain c then plainScalar
  else refuse

def finish : Scan Unit := do
  unwind (-1)
  dropCandidate
  modify fun s ↦ { s with isDone := true, keyAllowed := false, blockKey? := none, flowKeys := [] }
  emit .streamEnd

def readOn : Scan Unit := do
  toNextToken (← fuel)
  dropStale
  unwind (← cursor).column
  match ← peek with
  | none => finish
  | some c => token c

/-- Whether it is not settled yet what the first token is. -/
def isOpen : Scan Bool := do
  if (← get).isDone then return false
  if (← get).queue.isEmpty then return true
  dropStale
  let s ← get
  let isFirst (key? : Option KeyCandidate) := key?.any (·.place = s.taken)
  return isFirst s.blockKey? || s.flowKeys.any isFirst

/-- Reads on until it is settled what the first token is. -/
def settle : Nat → Scan Unit
  | 0 => return
  | fuel + 1 => do
    if ← isOpen then
      readOn
      settle fuel

/-- The next token; after the last one, that one again. -/
def next : Scan Token := do
  settle (← fuel)
  return (← get).queue[0]?.getD .streamEnd

def take : Scan Unit := do
  settle (← fuel)
  modify fun s ↦ { s with queue := s.queue.extract 1, taken := s.taken + 1 }

end Yaml.Scan

end Engraving
