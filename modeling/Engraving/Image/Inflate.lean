/-!
# Compressed data

Data of a picture file are compressed, and guarded by checksums.

## Contents

- `PrefixCode`: a prefix code as a binary tree, built from the lengths of its codes.
- `Inflater`: a reading of compressed data, and `Inflater.run`.
-/

namespace Engraving

/-! ## Checksums

Two sums guard the parts of a picture file: a cyclic one over each chunk, and a running one over
the decompressed data.
-/

namespace Checksum

/-- The remainder of a byte in the cyclic sum, with the lowest bit first. -/
def crcBits : Nat → UInt32 → UInt32
  | 0, r => r
  | n + 1, r => crcBits n (if r &&& 1 = 1 then (r >>> 1) ^^^ 0xEDB88320 else r >>> 1)

/-- Takes up a byte in the cyclic sum. -/
def crcByte (r : UInt32) (b : UInt8) : UInt32 :=
  crcBits 8 ((r ^^^ b.toUInt32) &&& 0xFF) ^^^ (r >>> 8)

def crc (bytes : List UInt8) : UInt32 := bytes.foldl crcByte 0xFFFFFFFF ^^^ 0xFFFFFFFF

/-- The running sum of some bytes: the sum of the bytes and one, and the sum of those sums, both
modulo the greatest prime below `2 ^ 16`. -/
def running (bytes : List UInt8) : UInt32 :=
  let (a, b) := bytes.foldl (fun (a, b) byte ↦
    let a := (a + byte.toNat) % 65521
    (a, (b + a) % 65521)) (1, 0)
  UInt32.ofNat (b * 65536 + a)

end Checksum

/-! ## Decompression

Compressed data are a string of bits, read from the lowest bit of each byte up. They come in blocks
of plain bytes or of symbols in a prefix code; a symbol is a byte, the end of the block, or a
repetition of bytes that were put out before.

The reader asks for so many bytes and no more. What comes after the last of them is still looked at,
up to the next symbol that would put out more, so that damage right behind the last byte is found
while missing input behind it is not. Output is counted off in groups, and it is noted how much of
the input was read for each, because the input may become available in pieces.
-/

/-! ### Prefix codes -/

/-- A prefix code: the path to a symbol is its code. -/
inductive PrefixCode where
  /-- No code leads here. -/
  | none
  /-- The end of the code of a symbol. -/
  | symbol (n : Nat)
  | branch (zero one : PrefixCode)

namespace PrefixCode

/-- Adds a symbol under a code of `length` bits, the highest first. -/
def insert (code n : Nat) : Nat → PrefixCode → PrefixCode
  | 0, _ => symbol n
  | length + 1, tree =>
    let (zero, one) := match tree with
      | branch zero one => (zero, one)
      | _ => (none, none)
    if code.testBit length then branch zero (one.insert code n length)
    else branch (zero.insert code n length) one

/-- The longest code. -/
def maxLength : Nat := 15

/-- How much of all codes the codes of the given lengths take up, of `2 ^ maxLength`. -/
def share (lengths : List Nat) : Nat :=
  lengths.foldl (fun taken l ↦ if l = 0 then taken else taken + Nat.pow 2 (maxLength - l)) 0

/-- The symbols of one code length, in order, take the next codes of that length. -/
def insertLength (length : Nat) (lengths : List Nat) (start : Nat × PrefixCode) :
    Nat × PrefixCode :=
  lengths.zipIdx.foldl (fun (code, tree) (l, n) ↦
    if l = length then (code + 1, tree.insert code n length) else (code, tree)) start

/-- The code in which symbol `n` has the length `lengths[n]`, zero standing for no code at all.
Shorter codes come first, and of equally long ones that of the smaller symbol. -/
def ofLengths (lengths : List Nat) : PrefixCode :=
  ((List.range maxLength).foldl (fun (code, tree) i ↦
    insertLength (i + 1) lengths (2 * code, tree)) (0, branch none none)).2

/-- Whether the lengths make a code: they leave nothing over, unless there is no symbol at all, or
a single one is allowed to have a code of one bit. -/
def isCode (single : Bool) (lengths : List Nat) : Bool :=
  share lengths = Nat.pow 2 maxLength || lengths.all (· = 0) ||
    (single && share lengths < Nat.pow 2 maxLength && lengths.all (· ≤ 1))

end PrefixCode

/-! ### Reading bits -/

/-- Why a reading of compressed data stops before the end. -/
inductive InflateStop where
  | exhausted
  /-- As many bytes were put out as were asked for. -/
  | full
  | corrupt
  deriving DecidableEq, Repr

/-- A reading of compressed data. -/
structure Inflater where
  input : ByteArray
  /-- How many bits of the input were read. -/
  position : Nat
  limit : Nat
  output : ByteArray
  /-- How many bytes were put out when a group is complete. -/
  groupEnd : Nat → Nat
  /-- For each group that is complete, how many bytes of the input were read by then. -/
  ends : Array Nat := #[]
  /-- For each group but the first that was begun, how many bytes of the input were read before its
  first byte was put out. -/
  starts : Array Nat := #[]

/-- How many bytes of the input were read, those included of which some bits are left. -/
def Inflater.bytesRead (s : Inflater) : Nat := (s.position + 7) / 8

abbrev Inflate := ExceptT InflateStop (StateM Inflater)

namespace Inflate

def bit : Inflate Bool := do
  let s ← get
  match s.input[s.position / 8]? with
  | none => throw .exhausted
  | some byte =>
    set { s with position := s.position + 1 }
    return byte.toNat.testBit (s.position % 8)

/-- A number of so many bits, the lowest first. -/
def bits : Nat → Inflate Nat
  | 0 => return 0
  | n + 1 => do
    let low ← bit
    return low.toNat + 2 * (← bits n)

def symbol : PrefixCode → Inflate Nat
  | .none => throw .corrupt
  | .symbol n => return n
  | .branch zero one => do if ← bit then symbol one else symbol zero

/-- Leaves out the bits up to the next whole byte. -/
def align : Inflate Unit := modify fun s ↦ { s with position := (s.position + 7) / 8 * 8 }

/-! ### Putting bytes out -/

/-- Makes sure that another byte may be put out. -/
def prepare : Inflate Unit := do
  let s ← get
  if s.limit ≤ s.output.size then throw .full
  if s.starts.size < s.ends.size then
    set { s with starts := s.starts.push s.bytesRead }

def push (b : UInt8) : Inflate Unit := modify fun s ↦
  let s := { s with output := s.output.push b }
  if s.output.size = s.groupEnd s.ends.size then { s with ends := s.ends.push s.bytesRead } else s

def put (b : UInt8) : Inflate Unit := do
  prepare
  push b

/-- Copies so many bytes of the input. -/
def plain : Nat → Inflate Unit
  | 0 => return
  | n + 1 => do
    prepare
    push (UInt8.ofNat (← bits 8))
    plain n

/-- Repeats so many bytes of the output, from `distance` bytes back. -/
def repetition (distance : Nat) : Nat → Inflate Unit
  | 0 => return
  | n + 1 => do
    let output := (← get).output
    put (output[output.size - distance]?.getD 0)
    repetition distance n

/-! ### Blocks -/

/-- For each length symbol from 257 on: the least length and how many bits are added to it. -/
def lengthTable : List (Nat × Nat) := [
  (3, 0), (4, 0), (5, 0), (6, 0), (7, 0), (8, 0), (9, 0), (10, 0), (11, 1), (13, 1), (15, 1),
  (17, 1), (19, 2), (23, 2), (27, 2), (31, 2), (35, 3), (43, 3), (51, 3), (59, 3), (67, 4),
  (83, 4), (99, 4), (115, 4), (131, 5), (163, 5), (195, 5), (227, 5), (258, 0)]

/-- For each distance symbol: the least distance and how many bits are added to it. -/
def distanceTable : List (Nat × Nat) := [
  (1, 0), (2, 0), (3, 0), (4, 0), (5, 1), (7, 1), (9, 2), (13, 2), (17, 3), (25, 3), (33, 4),
  (49, 4), (65, 5), (97, 5), (129, 6), (193, 6), (257, 7), (385, 7), (513, 8), (769, 8),
  (1025, 9), (1537, 9), (2049, 10), (3073, 10), (4097, 11), (6145, 11), (8193, 12), (12289, 12),
  (16385, 13), (24577, 13)]

/-- The number that a symbol of a table stands for, with the bits that are added to it. -/
def tableNumber (table : List (Nat × Nat)) (n : Nat) : Inflate Nat :=
  match table[n]? with
  | some (least, extra) => return least + (← bits extra)
  | none => throw .corrupt

/-- The symbols of a block up to its end. Every symbol takes a bit of the input at least, so `fuel`
is never used up when it is as large as the count of bits. -/
def symbols (literals distances : PrefixCode) : Nat → Inflate Unit
  | 0 => throw .exhausted
  | fuel + 1 => do
    let n ← symbol literals
    if n = 256 then return
    if n < 256 then put (UInt8.ofNat n)
    else
      let length ← tableNumber lengthTable (n - 257)
      let distance ← tableNumber distanceTable (← symbol distances)
      if (← get).output.size < distance then throw .corrupt
      repetition distance length
    symbols literals distances fuel

def plainBlock : Inflate Unit := do
  align
  let size ← bits 16
  if size + (← bits 16) ≠ 65535 then throw .corrupt
  plain size

/-- The lengths of the codes of literals in a block with fixed codes. -/
def fixedLiterals : List Nat :=
  List.replicate 144 8 ++ List.replicate 112 9 ++ List.replicate 24 7 ++ List.replicate 8 8

/-- The lengths of the codes of distances in a block with fixed codes. -/
def fixedDistances : List Nat := List.replicate 32 5

/-- The order in which the lengths of the codes of code lengths are given. -/
def lengthOrder : List Nat := [16, 17, 18, 0, 8, 7, 9, 6, 10, 5, 11, 4, 12, 3, 13, 2, 14, 1, 15]

/-- Reads code lengths up to a count; `done` holds those read before, in reverse. Each step adds
one length at least. -/
def codeLengths (code : PrefixCode) (count : Nat) : Nat → List Nat → Inflate (List Nat)
  | 0, _ => throw .corrupt
  | fuel + 1, done => do
    if done.length = count then return done.reverse
    if count < done.length then throw .corrupt
    let n ← symbol code
    let more ←
      if n < 16 then pure [n]
      else if n = 16 then
        let count := 3 + (← bits 2)
        match done with
        | [] => throw .corrupt
        | last :: _ => pure (List.replicate count last)
      else if n = 17 then pure (List.replicate (3 + (← bits 3)) 0)
      else pure (List.replicate (11 + (← bits 7)) 0)
    codeLengths code count fuel (more ++ done)

/-- The two codes given at the head of a block. -/
def codes : Inflate (PrefixCode × PrefixCode) := do
  let literalCount := 257 + (← bits 5)
  let distanceCount := 1 + (← bits 5)
  let lengthCount := 4 + (← bits 4)
  if 286 < literalCount || 30 < distanceCount then throw .corrupt
  let given ← (lengthOrder.take lengthCount).mapM fun n ↦ return (n, ← bits 3)
  let lengths := (List.range 19).map fun n ↦ (given.lookup n).getD 0
  unless PrefixCode.isCode false lengths do throw .corrupt
  let count := literalCount + distanceCount
  let all ← codeLengths (.ofLengths lengths) count (count + 1) []
  let literals := all.take literalCount
  let distances := all.drop literalCount
  if literals[256]?.getD 0 = 0 then throw .corrupt
  unless PrefixCode.isCode true literals && PrefixCode.isCode true distances do throw .corrupt
  return (.ofLengths literals, .ofLengths distances)

def blocks : Nat → Inflate Unit
  | 0 => throw .exhausted
  | fuel + 1 => do
    let last ← bit
    let count := 8 * (← get).input.size
    match ← bits 2 with
    | 0 => plainBlock
    | 1 => symbols (.ofLengths fixedLiterals) (.ofLengths fixedDistances) (count + 1)
    | 2 =>
      let (literals, distances) ← codes
      symbols literals distances (count + 1)
    | _ => throw .corrupt
    unless last do blocks fuel

/-- The whole of the compressed data: a head of two bytes, the blocks, and the running sum of what
was put out. -/
def all : Inflate Unit := do
  let method ← bits 8
  let flags ← bits 8
  if (method * 256 + flags) % 31 ≠ 0 || method % 16 ≠ 8 || 7 < method / 16 ||
    flags.testBit 5 then throw .corrupt
  blocks (8 * (← get).input.size + 1)
  align
  let sum ← (List.range 4).foldlM (fun n _ ↦ return n * 256 + (← bits 8)) 0
  if UInt32.ofNat sum ≠ Checksum.running (← get).output.toList then throw .corrupt

end Inflate

/-- Reads compressed data until they end or `limit` bytes are put out, in groups. -/
def Inflater.run (input : ByteArray) (limit : Nat) (groupEnd : Nat → Nat) :
    Except InflateStop Unit × Inflater :=
  Inflate.all.run.run { input, position := 0, limit, output := .empty, groupEnd }

end Engraving
