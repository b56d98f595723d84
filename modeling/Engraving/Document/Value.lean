import Engraving.Number.Exact
import Engraving.Number.Writing

/-!
# Documents

A document is what a configuration file says, free of its notation: scalars, lists, sets, and
mappings from keys to values in the order in which the keys were met first. Two keys are the same
when they denote the same thing, so that `1`, `1.0` and `true` are one key, while `"1"` is another
one. What is no number is one key where it is written by its name; computed, it is another one at
every place.

A collection may stand at several places of a document, even inside of itself. So there are two ways
to hold one: as a value, or as a place in a `Store` that holds the value.
-/

namespace Engraving

/-! ## Dates and instants

A document may hold dates of the Gregorian calendar and instants, which are dates with a time of day
and perhaps the offset of a time zone. Fields are checked one after the other, and the first that
is out of range is named.

Each has two written forms: a plain one, and one that spells out the fields for use inside of
lists.
-/

inductive DateError where
  | year (given : Nat)
  | month
  | day
  | hour
  | minute
  | second
  /-- The offset of the time zone, in minutes, is a day or more. -/
  | offset (minutes : Int)
  deriving DecidableEq, Repr

/-- A length of time, spelled out in whole days and the seconds left over. -/
def durationFields (minutes : Int) : String :=
  let days := minutes.fdiv 1440
  let seconds := minutes.fmod 1440 * 60
  let parts := (if days = 0 then [] else ["days=" ++ toString days]) ++
    (if seconds = 0 then [] else ["seconds=" ++ toString seconds])
  "datetime.timedelta(" ++ (if parts.isEmpty then "0" else ", ".intercalate parts) ++ ")"

namespace DateError

def message : DateError → String
  | year given => "year " ++ toString given ++ " is out of range"
  | month => "month must be in 1..12"
  | day => "day is out of range for month"
  | hour => "hour must be in 0..23"
  | minute => "minute must be in 0..59"
  | second => "second must be in 0..59"
  | offset minutes =>
    "offset must be a timedelta strictly between -timedelta(hours=24) and timedelta(hours=24), " ++
      "not " ++ durationFields minutes ++ "."

end DateError

structure Date where
  year : Nat
  /-- The month, from one on. -/
  month : Nat
  day : Nat
  deriving DecidableEq, Repr

namespace Date

/-- Whether a year has 366 days. -/
def isLeap (year : Nat) : Bool := year % 4 = 0 && (year % 100 ≠ 0 || year % 400 = 0)

def monthLength (year month : Nat) : Nat :=
  if month = 2 then if isLeap year then 29 else 28
  else if month = 4 || month = 6 || month = 9 || month = 11 then 30
  else 31

def of? (year month day : Nat) : Except DateError Date :=
  if year = 0 || 9999 < year then .error (.year year)
  else if month = 0 || 12 < month then .error .month
  else if day = 0 || monthLength year month < day then .error .day
  else .ok ⟨year, month, day⟩

/-- How many days lie before the date, counted from some fixed day on. -/
def dayNumber (d : Date) : Nat :=
  let before := d.year - 1
  let months := (List.range (d.month - 1)).foldl (fun days m ↦ days + monthLength d.year (m + 1)) 0
  365 * before + before / 4 - before / 100 + before / 400 + months + d.day

def text (d : Date) : String :=
  FixedPoint.paddedDigits 4 d.year ++ "-" ++ FixedPoint.paddedDigits 2 d.month ++ "-" ++
    FixedPoint.paddedDigits 2 d.day

/-- The fields of the date, between commas. -/
def fields (d : Date) : String :=
  toString d.year ++ ", " ++ toString d.month ++ ", " ++ toString d.day

def spelled (d : Date) : String := "datetime.date(" ++ d.fields ++ ")"

end Date

/-- A date with a time of day. -/
structure Instant where
  date : Date
  hour : Nat
  minute : Nat
  second : Nat
  /-- Millionths of the second. -/
  fraction : Nat
  offset? : Option Int
  deriving DecidableEq, Repr

namespace Instant

/-- Whether an offset of minutes is less than a day. -/
def isOffset (minutes : Int) : Bool := minutes.natAbs < 1440

def of? (year month day hour minute second fraction : Nat) (offset? : Option Int) :
    Except DateError Instant :=
  match offset?.filter (!isOffset ·) with
  | some minutes => .error (.offset minutes)
  | none => do
    let date ← Date.of? year month day
    if 23 < hour then .error .hour
    else if 59 < minute then .error .minute
    else if 59 < second then .error .second
    else .ok ⟨date, hour, minute, second, fraction, offset?⟩

/-- The minutes up to the instant, in the zone without offset. -/
def minutes (i : Instant) : Int :=
  i.date.dayNumber * 1440 + i.hour * 60 + i.minute - i.offset?.getD 0

/-- Whether two instants are the same moment; one with and one without a time zone never are. -/
def isSame (i j : Instant) : Bool :=
  i.minutes == j.minutes && i.second == j.second && i.fraction == j.fraction &&
    i.offset?.isSome == j.offset?.isSome

def offsetText (minutes : Int) : String :=
  (if minutes < 0 then "-" else "+") ++ FixedPoint.paddedDigits 2 (minutes.natAbs / 60) ++ ":" ++
    FixedPoint.paddedDigits 2 (minutes.natAbs % 60)

def text (i : Instant) : String :=
  i.date.text ++ " " ++ FixedPoint.paddedDigits 2 i.hour ++ ":" ++
    FixedPoint.paddedDigits 2 i.minute ++ ":" ++ FixedPoint.paddedDigits 2 i.second ++
    (if i.fraction = 0 then "" else "." ++ FixedPoint.paddedDigits 6 i.fraction) ++
    ((i.offset?.map offsetText).getD "")

def zoneSpelled (minutes : Int) : String :=
  if minutes = 0 then "datetime.timezone.utc"
  else "datetime.timezone(" ++ durationFields minutes ++ ")"

/-- The instant spelled out; seconds and their fraction are left out where they are zero. -/
def spelled (i : Instant) : String :=
  let times := [i.hour, i.minute] ++
    (if i.second = 0 && i.fraction = 0 then [] else [i.second]) ++
    (if i.fraction = 0 then [] else [i.fraction])
  "datetime.datetime(" ++ ", ".intercalate (i.date.fields :: times.map toString) ++
    ((i.offset?.map fun minutes ↦ ", tzinfo=" ++ zoneSpelled minutes).getD "") ++ ")"

end Instant

/-! ## Values -/

inductive Document where
  | null
  | bool (b : Bool)
  | whole (n : Int)
  | real (x : Float)
  /-- A float that is no number and was computed at a place. -/
  | unknown (place : Nat)
  | text (s : String)
  | bytes (b : List UInt8)
  | date (d : Date)
  | instant (i : Instant)
  /-- Two values that belong together. -/
  | pair (first second : Document)
  | list (items : List Document)
  | set (members : List Document)
  | mapping (entries : List (Document × Document))
  /-- The collection at a place. -/
  | shared (place : Nat)

/-- The collections of a document by their places. -/
abbrev Store := Array Document

namespace Document

instance : Inhabited Document := ⟨null⟩

/-- A value, with the collection itself in place of where it is stored. -/
def resolve (store : Store) : Document → Document
  | shared place => store[place]?.getD null
  | value => value

def kind : Document → String
  | null => "NoneType"
  | bool _ => "bool"
  | whole _ => "int"
  | real _ | unknown _ => "float"
  | text _ => "str"
  | bytes _ => "bytes"
  | date _ => "date"
  | instant _ => "datetime"
  | pair .. => "tuple"
  | list _ => "list"
  | set _ => "set"
  | mapping _ => "dict"
  | shared _ => "object"

/-- Whether a value counts as true: it is neither zero nor empty nor missing. -/
def isTruthy : Document → Bool
  | null => false
  | bool b => b
  | whole n => n ≠ 0
  | real x => x != 0
  | text s => !s.isEmpty
  | bytes b => !b.isEmpty
  | list items => !items.isEmpty
  | set members => !members.isEmpty
  | mapping entries => !entries.isEmpty
  | _ => true

/-! ## Keys -/

def isKey : Document → Bool
  | list _ | set _ | mapping _ | shared _ => false
  | _ => true

/-- The integer that a value is equal to. -/
def whole? : Document → Option Int
  | bool b => some (if b then 1 else 0)
  | whole n => some n
  | real x => (Exact.ofFloat x).whole?
  | _ => none

def isSame (a b : Document) : Bool :=
  match a, b with
  | null, null => true
  | text s, text t => s == t
  | bytes s, bytes t => s == t
  | date d, date e => d == e
  | instant i, instant j => i.isSame j
  | real x, real y => x == y || (x.isNaN && y.isNaN)
  | unknown p, unknown q => p == q
  | a, b => a.whole?.isSome && a.whole? == b.whole?

/-- The value under a key, the first of those that are the same. -/
def lookup? (key : Document) (entries : List (Document × Document)) : Option Document :=
  (entries.find? fun entry ↦ entry.1.isSame key).map Prod.snd

/-- Puts a value under a key. A key that is there already stays where it is. -/
def insert (entries : List (Document × Document)) (key value : Document) :
    List (Document × Document) :=
  if entries.any fun entry ↦ entry.1.isSame key then
    entries.map fun entry ↦ if entry.1.isSame key then (entry.1, value) else entry
  else entries ++ [(key, value)]

/-- The mapping of some entries, later ones winning. -/
def ofEntries (entries : List (Document × Document)) : Document :=
  mapping (entries.foldl (fun done entry ↦ insert done entry.1 entry.2) [])

def entries? (store : Store) (value : Document) : Option (List (Document × Document)) :=
  match value.resolve store with
  | mapping entries => some entries
  | _ => none

/-! ## Sets

A set is a table of slots, and its members are listed by their slots. A member is offered the slot
that the last bits of its hash tell, with the nine slots behind it where the table goes on for so
long; when they are taken it is offered other slots, which further bits of the hash tell.
-/

/-- How many slots a set with so many members has: a power of two above twice their count, except
that a few have room in eight. -/
def slotCount (count : Nat) : Nat :=
  if count < 5 then 8 else Nat.pow 2 (Nat.log2 (2 * count) + 1)

/-- The prime number that magnitudes of numbers are hashed by. -/
def hashModulus : Nat := Nat.pow 2 61 - 1

/-- The hash of a number of this magnitude. It is never minus one, and a negative one stands for a
word. -/
def signedHash (negative : Bool) (magnitude : Nat) : Nat :=
  let reduced := magnitude % hashModulus
  if negative && reduced ≠ 0 then Nat.pow 2 64 - max 2 reduced else reduced

/-- The hash of a number; equal ones have the same. Those of other values differ from run to run. -/
def hash : Document → Nat
  | bool b => if b then 1 else 0
  | whole n => signedHash (n < 0) n.natAbs
  | real x =>
    match Exact.ofFloat x with
    | .finite negative m e =>
      -- Two to the power of 61 leaves the rest one.
      signedHash negative (m % hashModulus * Nat.pow 2 (e.emod 61).toNat)
    | .infinite negative => signedHash negative 314159
    | .undefined => 0
  | _ => 0

/-- The slot for a member. In the end every slot has been offered, so the rounds are enough. -/
def freeSlot (slots : Nat) (taken : List Nat) : Nat → Nat → Nat → Nat
  | 0, first, _ => first
  | rounds + 1, first, hash =>
    let stretch := List.range' first (if first + 9 < slots then 10 else 1)
    match stretch.find? fun slot ↦ !taken.contains slot with
    | some slot => slot
    | none => freeSlot slots taken rounds ((5 * first + 1 + hash / 32) % slots) (hash / 32)

def ofMembers (members : List Document) : Document :=
  let slots := slotCount members.length
  let table := members.foldl (fun table member ↦
    let slot := freeSlot slots (table.map Prod.fst) (slots + 13) (member.hash % slots) member.hash
    (slot, member) :: table) []
  set ((table.mergeSort fun a b ↦ decide (a.1 ≤ b.1)).map Prod.snd)

end Document

end Engraving
