import Engraving.Number.Exact
import Engraving.Text.Character

/-!
# Texts and bytes

A file holds bytes. They are read as text at once or block by block, and a text may stand for bytes
in its turn.

## Contents

- `Utf8.decode`: text from bytes, or the refusal of them.
- `Intake`: a file that is being read, and `Intake.read?`.
- `TextBlocks`: the blocks of a file.
-/

namespace Engraving

/-! ## Text from bytes

Bytes are read as UTF-8 and refused at the first sequence that is none. The refusal names the bytes
that were seen of the sequence: a byte that cannot begin one stands alone, and of a sequence that
breaks off only the bytes before the break are named.
-/

/-- What is wrong with a byte sequence. -/
inductive Utf8Fault where
  | start
  | continuation
  | incomplete
  deriving DecidableEq, Repr

/-- The first sequence of some bytes that is not UTF-8. -/
structure Utf8Error where
  fault : Utf8Fault
  position : Nat
  first : UInt8
  /-- How many of its bytes are named, one at least. -/
  count : Nat
  deriving DecidableEq, Repr

namespace Utf8Error

def reason (e : Utf8Error) : String :=
  match e.fault with
  | .start => "invalid start byte"
  | .continuation => "invalid continuation byte"
  | .incomplete => "unexpected end of data"

def byteText (b : UInt8) : String :=
  String.ofList (hexDigits 2 b.toNat)

def message (e : Utf8Error) : String :=
  if e.count = 1 then
    "'utf-8' codec can't decode byte 0x" ++ byteText e.first ++ " in position " ++
      toString e.position ++ ": " ++ e.reason
  else
    "'utf-8' codec can't decode bytes in position " ++ toString e.position ++ "-" ++
      toString (e.position + e.count - 1) ++ ": " ++ e.reason

end Utf8Error

namespace Utf8

/-- How many bytes continue a sequence that begins with `b`, and the bounds of the first of them:
shortest forms, no surrogates and nothing beyond the last code point. -/
def shape? (b : UInt8) : Option (Nat × UInt8 × UInt8) :=
  if b < 0x80 then some (0, 0x80, 0xBF)
  else if b < 0xC2 then none
  else if b < 0xE0 then some (1, 0x80, 0xBF)
  else if b = 0xE0 then some (2, 0xA0, 0xBF)
  else if b = 0xED then some (2, 0x80, 0x9F)
  else if b < 0xF0 then some (2, 0x80, 0xBF)
  else if b = 0xF0 then some (3, 0x90, 0xBF)
  else if b < 0xF4 then some (3, 0x80, 0xBF)
  else if b = 0xF4 then some (3, 0x80, 0x8F)
  else none

/-- Reads `count` continuation bytes after `code`; the next one lies between `low` and `high`. On a
fault, says which and how many bytes were read before it. -/
def continue? (low high : UInt8) (code seen : Nat) :
    Nat → List UInt8 → Except (Utf8Fault × Nat) (Nat × List UInt8)
  | 0, rest => .ok (code, rest)
  | _ + 1, [] => .error (.incomplete, seen)
  | count + 1, b :: rest =>
    if low ≤ b && b ≤ high then
      continue? 0x80 0xBF (code * 64 + (b.toNat - 0x80)) (seen + 1) count rest
    else .error (.continuation, seen)

/-- The bits of a first byte that belong to the code point. -/
def leadBits (count : Nat) (b : UInt8) : Nat :=
  match count with
  | 0 => b.toNat
  | 1 => b.toNat % 32
  | 2 => b.toNat % 16
  | _ => b.toNat % 8

theorem continue?_length {low high : UInt8} {code seen count code' : Nat} {bytes rest : List UInt8}
    (h : continue? low high code seen count bytes = .ok (code', rest)) :
    rest.length ≤ bytes.length := by
  induction count generalizing low high code seen bytes with
  | zero =>
    simp only [continue?, Except.ok.injEq, Prod.mk.injEq] at h
    simp [h.2]
  | succ count ih =>
    cases bytes with
    | nil => simp [continue?] at h
    | cons b bytes =>
      rw [continue?] at h
      split at h
      · exact Nat.le_succ_of_le (ih h)
      · cases h

/-- The characters of `bytes`, the first of which stands at `position`, after the characters `done`,
which are reversed. -/
def decodeFrom (done : List Char) (position : Nat) (bytes : List UInt8) :
    Except Utf8Error (List Char) :=
  match bytes with
  | [] => .ok done.reverse
  | b :: rest =>
    match shape? b with
    | none => .error ⟨.start, position, b, 1⟩
    | some (count, low, high) =>
      match h : continue? low high (leadBits count b) 1 count rest with
      | .error (fault, seen) => .error ⟨fault, position, b, seen⟩
      | .ok (code, after) =>
        decodeFrom (Char.ofNat code :: done) (position + count + 1) after
termination_by bytes.length
decreasing_by
  have := continue?_length h
  simp only [List.length_cons]
  omega

def decode (bytes : List UInt8) : Except Utf8Error (List Char) := decodeFrom [] 0 bytes

end Utf8

/-! ## Base 64

Bytes may be written with sixty-four characters, six bits each; four characters make three bytes,
and the last group is filled up with equals signs. All other characters are passed over, and so are
equals signs where no group can end. What follows a group that is filled up does not count.
-/

/-- The six bits that a character stands for. -/
def sextet? (c : Char) : Option Nat :=
  if c.isUpper then some (c.toNat - 65)
  else if c.isLower then some (c.toNat - 71)
  else if c.isDigit then some (c.toNat + 4)
  else if c = '+' then some 62
  else if c = '/' then some 63
  else none

/-- The sextets in a text, unless it breaks off within a group. Of the group there are `filled`
sextets so far, and after them `signs` equals signs. -/
def sextets? : Nat → Nat → List Char → Option (List Nat)
  | filled, _, [] => if filled = 0 then some [] else none
  | filled, signs, c :: rest =>
    if c = '=' then
      if filled < 2 then sextets? filled signs rest
      else if 3 ≤ filled + signs then some []
      else sextets? filled (signs + 1) rest
    else
      match sextet? c with
      | some s => (sextets? ((filled + 1) % 4) 0 rest).map (s :: ·)
      | none => sextets? filled signs rest

def sextetBytes : List Nat → List UInt8
  | a :: b :: c :: d :: rest =>
    let n := ((a * 64 + b) * 64 + c) * 64 + d
    UInt8.ofNat (n / 65536) :: UInt8.ofNat (n / 256) :: UInt8.ofNat n :: sextetBytes rest
  | [a, b, c] =>
    let n := (a * 64 + b) * 64 + c
    [UInt8.ofNat (n / 1024), UInt8.ofNat (n / 4)]
  | [a, b] => [UInt8.ofNat ((a * 64 + b) / 16)]
  | _ => []

/-- The bytes that a text in base 64 denotes. -/
def decodeBase64? (text : List Char) : Option (List UInt8) :=
  (sextets? 0 0 text).map sextetBytes

/-! ## Text files in blocks

A text file is not read at once. Bytes are taken from it in portions, every portion is decoded and
its line ends are unified, and the characters are handed out in blocks of one size. So bytes that
are not UTF-8 come to light with the block that needs their portion, and the blocks before it stay
good. Their position is counted from the portion on, together with the bytes of a character that the
portion before broke off in.

How large a portion is depends on how many bytes a character took before.
-/

/-- Text in which every line ends with a line feed alone. -/
def unifyLineEnds : List Char → List Char
  | [] => []
  | '\r' :: '\n' :: rest => '\n' :: unifyLineEnds rest
  | c :: rest => (if c = '\r' then '\n' else c) :: unifyLineEnds rest

/-- A file that is being read. -/
structure Intake where
  rest : List UInt8
  /-- The bytes of a character that is not complete yet. -/
  broken : List UInt8 := []
  /-- Whether a carriage return was read that a line feed may follow. -/
  held : Bool := false
  ready : List Char := []
  /-- How many bytes a character of the last portion took. -/
  density : Float := 0

namespace Intake

/-- How many bytes a portion has at least. -/
def leastPortion : Nat := 8192

/-- How many bytes are taken when so many characters are wanted. -/
def portionLength (s : Intake) (wanted : Nat) : Nat :=
  let density := if 1 < s.density then s.density else 1
  max leastPortion (Exact.ofFloat (density * Float.ofNat wanted)).floor.toNat

/-- The characters in some bytes, and the bytes that are left of the last one unless there are none
to follow. -/
def decode? (isLast : Bool) (bytes : List UInt8) : Except Utf8Error (List Char × List UInt8) :=
  match Utf8.decode bytes with
  | .ok text => .ok (text, [])
  | .error e =>
    if e.fault = .incomplete && !isLast then do
      let text ← Utf8.decode (bytes.take e.position)
      .ok (text, bytes.drop e.position)
    else .error e

/-- Takes a portion for so many characters; returns whether there was one. -/
def take? (s : Intake) (wanted : Nat) : Except Utf8Error (Bool × Intake) := do
  let portion := s.rest.take (s.portionLength wanted)
  let isLast := portion.isEmpty
  let (text, broken) ← decode? isLast (s.broken ++ portion)
  let text := if s.held && (isLast || !text.isEmpty) then '\r' :: text else text
  let held := !isLast && ((s.held && text.isEmpty) || text.getLast? = some '\r')
  let ready := unifyLineEnds (if held then text.dropLast else text)
  let density := if ready.isEmpty then 0 else Float.ofNat portion.length / Float.ofNat ready.length
  let rest := s.rest.drop portion.length
  .ok (!isLast || !ready.isEmpty, { rest, broken, held, ready, density })

/-- Reads so many characters, or as many as there are. Every portion but the last two takes a
byte, so `fuel` is never used up when it is larger by two than the count of bytes. -/
def read? (fuel wanted : Nat) (s : Intake) : Except Utf8Error (List Char × Intake) :=
  let found := s.ready.take wanted
  let s := { s with ready := s.ready.drop wanted }
  match fuel, wanted - found.length with
  | 0, _ | _, 0 => .ok (found, s)
  | fuel + 1, missing => do
    let (more, s) ← s.take? missing
    if more then
      let (others, s) ← read? fuel missing s
      .ok (found ++ others, s)
    else .ok (found, s)

end Intake

/-- A text in blocks. The last of them may be one that cannot be read. -/
abbrev TextBlocks := List (Except Utf8Error (List Char))

namespace TextBlocks

def blockSize : Nat := 4096

/-- The blocks that are left of a file. -/
def ofIntake (fuel : Nat) : Nat → Intake → TextBlocks
  | 0, _ => []
  | count + 1, s =>
    match s.read? fuel blockSize with
    | .error e => [.error e]
    | .ok ([], _) => []
    | .ok (block, s) => .ok block :: ofIntake fuel count s

def ofBytes (bytes : List UInt8) : TextBlocks :=
  ofIntake (bytes.length + 2) (bytes.length + 1) { rest := bytes }

/-- The blocks of a text of which the first two are read before anything is made of them. -/
def joinFirst : TextBlocks → TextBlocks
  | .ok first :: .ok second :: rest => .ok (first ++ second) :: rest
  | .ok _ :: .error e :: _ => [.error e]
  | blocks => blocks

def length (blocks : TextBlocks) : Nat :=
  blocks.foldl (fun n block ↦ n + (block.toOption.getD []).length) 0

end TextBlocks

end Engraving
