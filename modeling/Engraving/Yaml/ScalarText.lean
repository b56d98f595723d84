import Engraving.Text.Quoted
import Engraving.Yaml.Scanner

/-!
# Texts of scalars

A scalar is written within quotation marks, plainly, or in a block of its own lines.
-/

namespace Engraving

/-! ## Scalars within quotation marks

Within single quotation marks only the mark itself has to be written twice; within double ones a
backslash begins an escape. The end of a line counts as a blank, and empty lines as ends of lines.
-/

namespace Yaml.Scan

/-- What the characters after a backslash stand for. -/
def escapes : List (Char × Char) := [
  ('0', '\x00'), ('a', '\x07'), ('b', '\x08'), ('t', '\t'), ('\t', '\t'), ('n', '\n'),
  ('v', '\x0b'), ('f', '\x0c'), ('r', '\r'), ('e', '\x1b'), (' ', ' '), ('"', '"'),
  ('\\', '\\'), ('/', '/'), ('N', '\x85'), ('_', '\xa0'), ('L', '\u2028'), ('P', '\u2029')]

/-- How many hexadecimal digits follow a letter after a backslash. -/
def escapeLengths : List (Char × Nat) := [('x', 2), ('u', 4), ('U', 8)]

/-- Reads a character that is given by its number. -/
def numberedChar (length : Nat) : Scan (List Char) := do
  let code := hexValue (← hexDigits length)
  if 0x110000 ≤ code then throw (.character code)
  skip length
  return codeChars code

/-- What is left of the end of a line and of the ends of empty lines after it: the first counts as a
blank if it stands alone, and as nothing if others follow. -/
def foldBreaks (first others : List Char) : List Char :=
  if first ≠ ['\n'] then first ++ others else if others.isEmpty then [' '] else others

/-- Reads the ends of empty lines within quotation marks, where no document may begin or end. -/
def quotedBreaks : Nat → Scan (List Char)
  | 0 => return []
  | fuel + 1 => do
    if ← atDocumentBoundary then refuse
    skipWhile fun c ↦ c = ' ' || c = '\t'
    let found ← lineBreak
    if found.isEmpty then return []
    return found ++ (← quotedBreaks fuel)

/-- Reads blanks within quotation marks; those around the end of a line are left out. -/
def quotedGap (fuel : Nat) : Scan (List Char) := do
  let blanks ← takeWhile fun c ↦ c = ' ' || c = '\t'
  if (← peek).isNone then refuse
  let first ← lineBreak
  if first.isEmpty then return blanks
  return foldBreaks first (← quotedBreaks fuel)

def escape (fuel : Nat) : Scan (List Char) := do
  match ← peek with
  | none => refuse
  | some c =>
    match escapes.lookup c with
    | some replacement =>
      skip 1
      return [replacement]
    | none =>
      match escapeLengths.lookup c with
      | some length =>
        skip 1
        numberedChar length
      | none =>
        if !isBreak c then refuse
        let _ ← lineBreak
        quotedBreaks fuel

/-- A character that stands for itself within quotation marks of either kind. -/
def isPlainlyQuoted (c : Char) : Bool :=
  !isGapOrEnd (some c) && c ≠ '\'' && c ≠ '"' && c ≠ '\\'

/-- Reads a scalar up to the quotation mark that ends it. -/
def quotedText (mark : Char) : Nat → Scan (List Char)
  | 0 => refuse
  | fuel + 1 => do
    let plain ← takeWhile isPlainlyQuoted
    match ← peek with
    | none => refuse
    | some c =>
      if c = mark then
        if mark = '\'' && (← peekAt 1) = some mark then
          skip 2
          return plain ++ mark :: (← quotedText mark fuel)
        else
          skip 1
          return plain
      else
        let found ←
          if c = '\\' && mark = '"' then do
            skip 1
            escape fuel
          else if isGapOrEnd (some c) then quotedGap fuel
          else do
            skip 1
            pure [c]
        return plain ++ found ++ (← quotedText mark fuel)

/-- Reads a scalar within quotation marks. -/
def quotedScalar (mark : Char) : Scan Unit := do
  saveCandidate
  allowKey false
  skip 1
  let text ← quotedText mark (← fuel)
  emit (.scalar false (String.ofList text))

end Yaml.Scan

/-! ## Plain scalars

A plain scalar has neither quotation marks nor an indicator before it. It ends at a colon with a gap
behind it, at a comment, at a line that is not deep enough, and within brackets at what belongs to
these.
-/

namespace Yaml.Scan

/-- Whether a word of a plain scalar ends before these characters. -/
def endsPlain (inFlow : Bool) (rest : List Char) : Bool :=
  match rest with
  | [] => true
  | c :: after =>
    isGapOrEnd (some c) ||
      (c = ':' && (isGapOrEnd after.head? ||
        (inFlow && (after.head?.map [',', '[', ']', '\x7b', '\x7d'].contains).getD false))) ||
      (inFlow && [',', '?', '[', ']', '\x7b', '\x7d'].contains c)

/-- The word of a plain scalar that characters begin with. -/
def plainPart (inFlow : Bool) : List Char → List Char
  | [] => []
  | c :: rest => if endsPlain inFlow (c :: rest) then [] else c :: plainPart inFlow rest

/-- Whether the end of a word can be told from these characters, whatever follows them. -/
def tellsPlainEnd (inFlow : Bool) (rest : List Char) : Bool :=
  let after := rest.drop (plainPart inFlow rest).length
  !after.isEmpty && after ≠ [':']

def plainWord : Scan (List Char) := do
  let inFlow ← inFlow
  reach fun c ↦ tellsPlainEnd inFlow c.rest
  let word := plainPart inFlow (← cursor).rest
  skip word.length
  return word

/-- Reads the ends of empty lines within a plain scalar; nothing where a document begins or ends. -/
def plainBreaks : Nat → Scan (Option (List Char))
  | 0 => return none
  | fuel + 1 => do
    skipWhile (· = ' ')
    let found ← lineBreak
    if found.isEmpty then return some []
    if ← atDocumentBoundary then return none
    return (← plainBreaks fuel).map (found ++ ·)

/-- Reads what lies between two words of a plain scalar. -/
def plainGap (fuel : Nat) : Scan (List Char) := do
  let blanks ← takeWhile (· = ' ')
  let first ← lineBreak
  if first.isEmpty then return blanks
  allowKey true
  if ← atDocumentBoundary then return []
  match ← plainBreaks fuel with
  | some others => return foldBreaks first others
  | none => return []

/-- Reads the words of a plain scalar, after the text `gap`. -/
def plainWords (indent : Int) (gap : List Char) : Nat → Scan (List Char)
  | 0 => return []
  | fuel + 1 => do
    if (← peek) = some '#' then return []
    let word ← plainWord
    if word.isEmpty then return []
    allowKey false
    let next ← plainGap fuel
    if next.isEmpty then return gap ++ word
    let outdented := !(← inFlow) && (← cursor).column < indent
    if (← peek) = some '#' || outdented then return gap ++ word
    return gap ++ word ++ (← plainWords indent next fuel)

def plainScalar : Scan Unit := do
  saveCandidate
  allowKey false
  let text ← plainWords ((← get).indent + 1) [] (← fuel)
  emit (.scalar true (String.ofList text))

end Yaml.Scan

/-! ## Block scalars

A block scalar takes up whole lines that are indented. Ends of lines are kept, or count as blanks in
a folded one; what becomes of those at the end is told by an indicator.
-/

namespace Yaml

/-- What becomes of the ends of lines at the end of a block scalar. -/
inductive Chomping where
  | strip
  | clip
  | keep
  deriving DecidableEq

namespace Scan

/-- Reads what becomes of the ends of lines. -/
def chomping? : Scan (Option Chomping) := do
  match ← peek with
  | some '+' =>
    skip 1
    return some .keep
  | some '-' =>
    skip 1
    return some .strip
  | _ => return none

/-- Reads the depth of a block scalar. -/
def depth? : Scan (Option Nat) := do
  match ← peek with
  | some c =>
    if c.isDigit then
      if c = '0' then refuse
      skip 1
      return some (c.toNat - 48)
    else return none
  | none => return none

/-- Reads the indicators at the head of a block scalar, in either order. -/
def blockIndicators : Scan (Chomping × Option Nat) := do
  let result ←
    match ← chomping? with
    | some chomping => do pure (chomping, ← depth?)
    | none => do
      let depth? ← depth?
      let chomping ← if depth?.isSome then chomping? else pure none
      pure (chomping.getD .clip, depth?)
  unless isSpaceOrEnd (← peek) do refuse
  return result

/-- Reads empty lines at the head of a block scalar; returns their ends and the greatest column that
is reached. -/
def blockLead : Nat → Nat → Scan (List Char × Nat)
  | 0, deepest => return ([], deepest)
  | fuel + 1, deepest => do
    skipWhile (· = ' ')
    let deepest := max deepest (← cursor).column
    let found ← lineBreak
    if found.isEmpty then return ([], deepest)
    let (breaks, deepest) ← blockLead fuel deepest
    return (found ++ breaks, deepest)

def skipTo (column : Nat) : Scan Unit := do
  let most := column - (← cursor).column
  if 0 < most then
    reach fun c ↦ most ≤ c.available || (c.rest.take most).any (· ≠ ' ')
    skip (((← cursor).rest.take most).takeWhile (· = ' ')).length

/-- Reads empty lines of a block scalar of some depth. -/
def blockBreaks (column : Nat) : Nat → Scan (List Char)
  | 0 => return []
  | fuel + 1 => do
    skipTo column
    let found ← lineBreak
    if found.isEmpty then return []
    return found ++ (← blockBreaks column fuel)

/-- Whether a line of a block scalar is indented further than the others. -/
def isFurther (c? : Option Char) : Bool := c? = some ' ' || c? = some '\t'

/-- Reads the lines of a block scalar, after the ends `breaks` of empty lines. -/
def blockLines (folded : Bool) (chomping : Chomping) (column : Nat) (breaks : List Char) :
    Nat → Scan (List Char)
  | 0 => return []
  | fuel + 1 => do
    let further := isFurther (← peek)
    let line ← takeWhile (!isBreak ·)
    let first ← lineBreak
    let others ← blockBreaks column fuel
    if (← cursor).column = column && (← peek).isSome then
      let joint :=
        if folded && first = ['\n'] && !further && !isFurther (← peek) then
          if others.isEmpty then [' '] else []
        else first
      return breaks ++ line ++ joint ++ (← blockLines folded chomping column others fuel)
    else
      return breaks ++ line ++
        match chomping with
        | .strip => []
        | .clip => first
        | .keep => first ++ others

/-- Reads a block scalar; in a folded one the ends of lines count as blanks. -/
def blockScalar (folded : Bool) : Scan Unit := do
  allowKey true
  dropCandidate
  skip 1
  let (chomping, depth?) ← blockIndicators
  restOfLine
  let fuel ← fuel
  let least := max 1 ((← get).indent + 1).toNat
  let (breaks, column) ←
    match depth? with
    | some depth => do
      let column := least + depth - 1
      pure (← blockBreaks column fuel, column)
    | none => do
      let (breaks, deepest) ← blockLead fuel 0
      pure (breaks, max least deepest)
  let text ←
    if (← cursor).column = column && (← peek).isSome then
      blockLines folded chomping column breaks fuel
    else pure (if chomping = .keep then breaks else [])
  emit (.scalar false (String.ofList text))

end Scan

end Yaml

end Engraving
