import Engraving.Document.Conversion
import Engraving.Files
import Engraving.Number.Quantity
import Engraving.Preview.Style
import Engraving.Text.Character

/-!
# Reading configurations

A configuration is made of a document, and the document of a file.
-/

namespace Engraving

/-! ## Colours in configurations

A colour is given by six hexadecimal digits, with or without a hash sign before them and blanks
around them. It is kept in one form: the hash sign and the digits in upper case.
-/

/-- A text without the hash sign that it may begin with. -/
def dropHash : List Char → List Char
  | '#' :: rest => rest
  | text => text

/-- The digits of a colour as they are given. -/
def colorDigits (text : String) : List Char := dropHash (trim text.toList)

/-- A colour in the form in which it is kept. -/
def normalColor? (text : String) : Option String :=
  let digits := colorDigits text
  if digits.length = 6 && digits.all isHexDigit then
    some (String.ofList ('#' :: digits.map Char.toUpper))
  else none

/-! ## Settings

A configuration says which laser engraves, how an image is laid out on the work surface, and how
previews are drawn. Every part of it has a value to begin with, so that nothing has to be
configured.
-/

/-- A laser and how hard it is driven. -/
structure Laser where
  name : String := "Laser"
  /-- The greatest power, in percent of full power. -/
  maxPower : Int := 100
  /-- How fast the head moves, in millimetres per minute. -/
  feedRate : Int := 1000
  deriving DecidableEq, Repr

namespace Laser

/-- The greatest power, in thousandths of full power. -/
def maxPowerUnits (l : Laser) : Int := l.maxPower * 10

/-- How fast the head moves, in millimetres per second. -/
def feedRatePerSecond? (l : Laser) : Except NumberError Float :=
  return (← wholeFloat? l.feedRate) / 60

end Laser

/-- How an image is laid out on the work surface, in millimetres. -/
structure Layout where
  width : Float := 30
  height : Float := 30
  startX : Float := 0
  startY : Float := 0
  invert : Bool := false
  coalesce : Bool := false

structure Config where
  laser : Laser := {}
  layout : Layout := {}
  preview : PreviewStyle := {}

/-! ## Configurations from documents

A document is read as a configuration in four steps: the laser is selected, then the three sections
are read, the laser's first. Each section is a mapping; a key that is missing leaves its value as
it was.

A document may define one laser under `laser`, or several under `lasers`. Of several, the one whose
name is asked for is selected, else the one that `default_laser` names, else the first. A laser
without a `name` is called by the key that it stands under.

Most faults are found by the configuration's own rules: these are the `ConfigError`s. The others are
met earlier, when a value has no form that the rules could look at.
-/

section

/-! ### Errors -/

/-- A rule for configurations that is broken. -/
inductive ConfigError where
  | fileMissing (path : String)
  | rootKind
  /-- What stands under `lasers` is no mapping, or is empty. -/
  | lasersKind
  /-- There is no laser under the name that `default_laser` gives. -/
  | defaultMissing (name : String) (available : List String)
  /-- There is no laser under the name that is asked for. -/
  | profileMissing (name : String) (available : List String)
  /-- A laser is asked for by name, but the document names none. -/
  | profilesMissing
  /-- A laser is asked for by name, but there is no document. -/
  | profileAlone
  | keyMissing (key : String)
  | laserKind
  | maxPower (given : Int)
  | feedRate (given : Int)
  | layoutSize
  | previewSize
  | previewResolution
  | colorKind (kind : String)
  | color (given : String)
  deriving DecidableEq, Repr

namespace ConfigError

/-- How the names to choose from are shown. -/
def availableText (available : List String) : String :=
  "' not found. Available profiles: " ++ ", ".intercalate available

/-- The wording of a configuration error. -/
def message : ConfigError → String
  | fileMissing path => "Configuration file not found: " ++ path
  | rootKind => "Configuration root must be a mapping."
  | lasersKind => "'lasers' must be a non-empty mapping of profiles."
  | defaultMissing name available => "Default laser profile '" ++ name ++ availableText available
  | profileMissing name available => "Laser profile '" ++ name ++ availableText available
  | profilesMissing => "Laser profile specified but configuration does not define any profiles."
  | profileAlone => "--laser-profile requires --config"
  | keyMissing key => "Missing required configuration key: " ++ key
  | laserKind => "Laser profile must be a mapping of settings."
  | maxPower given => "'max_power_percent' must be between 0 and 100, got " ++ toString given
  | feedRate given => "'feed_rate_mm_min' must be positive, got " ++ toString given
  | layoutSize => "Engraving 'width_mm' and 'height_mm' must be positive."
  | previewSize => "Preview 'width_px' and 'height_px' must be positive."
  | previewResolution => "Preview 'dpi' must be positive."
  | colorKind kind => "Color must be a string containing a hex color, got " ++ kind
  | color given => "Invalid hex color '" ++ given ++ "'. Expected format '#RRGGBB'."

end ConfigError

inductive DocumentError where
  | invalid (error : ConfigError)
  | conversion (error : ConversionError)
  /-- What stands under the key of a section is something, but no mapping. -/
  | sectionKind
  | nameKind
  /-- The names of lasers cannot be listed, because one of them is no text. -/
  | namesKind
  /-- `default_laser` names a laser by a key that is no text, but lasers are looked up by texts. -/
  | nameLookup (name : String)
  deriving DecidableEq, Repr

def DocumentError.message : DocumentError → String
  | invalid error => error.message
  | conversion error => error.message
  | sectionKind => "a section must be a mapping"
  | nameKind => "the name of a laser cannot be a collection"
  | namesKind => "the names of lasers must be texts"
  | nameLookup name => "no laser is called " ++ quoted name

namespace Document

/-- The entries of a document that are looked up by text. -/
abbrev Entries := List (Document × Document)

/-- The value under a key that is a text. -/
def field? (key : String) (entries : Entries) : Option Document :=
  lookup? (.text key) entries

/-- The value under a key that has to be there. -/
def required? (key : String) (entries : Entries) : Except DocumentError Document :=
  match field? key entries with
  | some value => .ok value
  | none => .error (.invalid (.keyMissing key))

/-- The integer under a key, or the one that it has otherwise. -/
def wholeField? (key : String) (otherwise : Int) (entries : Entries) : Except DocumentError Int :=
  match field? key entries with
  | some value => value.toWhole?.mapError .conversion
  | none => .ok otherwise

/-- The float under a key, or the one that it has otherwise. -/
def realField? (key : String) (otherwise : Float) (entries : Entries) :
    Except DocumentError Float :=
  match field? key entries with
  | some value => value.toReal?.mapError .conversion
  | none => .ok otherwise

/-- The float under a key as a quantity, or the quantity that it has otherwise. -/
def quantityField? (key : String) (otherwise : Quantity) (entries : Entries) :
    Except DocumentError Quantity :=
  match field? key entries with
  | some value => (value.toReal?.map .real).mapError .conversion
  | none => .ok otherwise

/-- The integer under a key as a quantity, or the quantity that it has otherwise. -/
def wholeQuantityField? (key : String) (otherwise : Quantity) (entries : Entries) :
    Except DocumentError Quantity :=
  match field? key entries with
  | some value => (value.toWhole?.map .whole).mapError .conversion
  | none => .ok otherwise

/-- Whether the value under a key counts as true. -/
def flagField (store : Store) (key : String) (otherwise : Bool) (entries : Entries) : Bool :=
  match field? key entries with
  | some value => (value.resolve store).isTruthy
  | none => otherwise

def toColor? : Document → Except ConfigError String
  | text s =>
    match normalColor? s with
    | some color => .ok color
    | none => .error (.color s)
  | other => .error (.colorKind other.kind)

/-- The colour under a key, or the one that it has otherwise. -/
def colorField? (store : Store) (key : String) (otherwise : String) (entries : Entries) :
    Except DocumentError String :=
  match field? key entries with
  | some value => (value.resolve store).toColor?.mapError .invalid
  | none => .ok otherwise

/-- The entries of a section. One that is missing or counts as false has none. -/
def section? (store : Store) (key : String) (entries : Entries) : Except DocumentError Entries :=
  match field? key entries with
  | none => .ok []
  | some value =>
    if (value.resolve store).isTruthy then
      match value.entries? store with
      | some found => .ok found
      | none => .error .sectionKind
    else .ok []

end Document

open Document

/-! ### Sections -/

/-- A value as it is written by itself. -/
def shown? (store : Store) (value : Document) : Except DocumentError String :=
  (value.plainText? store).mapError fun e ↦ .conversion (.number e)

/-- Refuses an integer, which has to be one that can be written. -/
def refuseWhole (error : Int → ConfigError) (given : Int) : Except DocumentError Unit :=
  match wholeText? given with
  | .ok _ => .error (.invalid (error given))
  | .error e => .error (.conversion (.number e))

/-- A laser. What it is called by default is the key that it stands under, if that counts as
true. -/
def Laser.ofDocument? (store : Store) (key? : Option Document) (document : Document) :
    Except DocumentError Laser := do
  let entries ← match document.entries? store with
    | some entries => .ok entries
    | none => .error (.invalid .laserKind)
  let maxPower ← (← required? "max_power_percent" entries).toWhole?.mapError .conversion
  unless 0 ≤ maxPower && maxPower ≤ 100 do refuseWhole .maxPower maxPower
  let feedRate ← (← required? "feed_rate_mm_min" entries).toWhole?.mapError .conversion
  unless 0 < feedRate do refuseWhole .feedRate feedRate
  let standard : Laser := {}
  let name ←
    match field? "name" entries with
    | some name => shown? store name
    | none =>
      match key?.filter isTruthy with
      | some key => shown? store key
      | none => .ok standard.name
  return { name, maxPower, feedRate }

/-- The layout in the entries of a section. -/
def Layout.ofEntries? (store : Store) (entries : Entries) : Except DocumentError Layout := do
  let standard : Layout := {}
  let width ← realField? "width_mm" standard.width entries
  let height ← realField? "height_mm" standard.height entries
  let startX ← realField? "start_x_mm" standard.startX entries
  let startY ← realField? "start_y_mm" standard.startY entries
  if width ≤ 0 || height ≤ 0 then throw (.invalid .layoutSize)
  return {
    width, height, startX, startY
    invert := flagField store "invert" standard.invert entries
    coalesce := flagField store "coalesce_power_runs" standard.coalesce entries }

/-- The style in the entries of a section. -/
def PreviewStyle.ofEntries? (store : Store) (entries : Entries) :
    Except DocumentError PreviewStyle := do
  let standard : PreviewStyle := {}
  let width ← wholeField? "width_px" standard.width entries
  let height ← wholeField? "height_px" standard.height entries
  let padding ← quantityField? "padding_px" standard.padding entries
  let dpi ← wholeQuantityField? "dpi" standard.dpi entries
  let rapidWidth ← realField? "rapid_line_width" standard.rapidWidth entries
  let feedWidth ← realField? "feed_line_width" standard.feedWidth entries
  let rapidColor ← colorField? store "rapid_color" standard.rapidColor entries
  let feedColor ← colorField? store "feed_color" standard.feedColor entries
  let boundsColor ← colorField? store "bounds_color" standard.boundsColor entries
  let originColor ← colorField? store "origin_color" standard.originColor entries
  if width ≤ 0 || height ≤ 0 then throw (.invalid .previewSize)
  if dpi.isNonpositive then throw (.invalid .previewResolution)
  return {
    width, height, padding, dpi, rapidWidth, feedWidth
    rapidColor, feedColor, boundsColor, originColor }

/-! ### Selection -/

def sortedNames? (lasers : Entries) : Except DocumentError (List String) := do
  let names ← lasers.mapM fun (key, _) ↦
    match key with
    | .text name => .ok name
    | _ => .error .namesKind
  return names.mergeSort fun a b ↦ decide (a ≤ b)

/-- The key of the laser that is selected, of lasers of which there is one at least. -/
def selectedKey? (store : Store) (profile? : Option String) (default? : Option Document)
    (lasers : Entries) : Except DocumentError Document := do
  match profile?, default?.filter fun name ↦ (name.resolve store).isTruthy with
  | some name, _ =>
    if (field? name lasers).isSome then return .text name
    else throw (.invalid (.profileMissing name (← sortedNames? lasers)))
  | none, some name =>
    if !name.isKey then throw .nameKind
    else if (lookup? name lasers).isSome then return .text (← shown? store name)
    else
      let available ← sortedNames? lasers
      throw (.invalid (.defaultMissing (← shown? store name) available))
  | none, none => return (lasers.head?.map Prod.fst).getD .null

/-- The laser that a document selects. -/
def selectedLaser? (store : Store) (profile? : Option String) (entries : Entries) :
    Except DocumentError Laser := do
  match field? "lasers" entries with
  | some profiles =>
    let lasers ← match profiles.entries? store with
      | some (first :: rest) => .ok (first :: rest)
      | _ => .error (.invalid .lasersKind)
    let key ← selectedKey? store profile? (field? "default_laser" entries) lasers
    match lookup? key lasers with
    | some document => Laser.ofDocument? store (some key) document
    | none => throw (.nameLookup (← shown? store key))
  | none =>
    if profile?.isSome then throw (.invalid .profilesMissing)
    Laser.ofDocument? store none (← required? "laser" entries)

/-! ### Configurations -/

/-- The configuration that a document holds; the laser may be asked for by name. -/
def Config.ofDocument? (store : Store) (profile? : Option String) (document : Document) :
    Except DocumentError Config := do
  let root := document.resolve store
  let entries ←
    if root.isTruthy then
      match root.entries? store with
      | some entries => .ok entries
      | none => .error (.invalid .rootKind)
    else .ok []
  let laser ← selectedLaser? store profile? entries
  let layout ← Layout.ofEntries? store (← section? store "engraving" entries)
  let preview ← PreviewStyle.ofEntries? store (← section? store "preview" entries)
  return { laser, layout, preview }

end

/-! ## Configurations from files

A configuration file holds a document. That there is nothing at a path is a fault of the
configuration; that what is there cannot be read is not.
-/

/-- Why no configuration can be loaded from a file. -/
inductive LoadError where
  | file (error : FileError)
  | yaml (error : YamlError)
  | document (error : DocumentError)

namespace LoadError

def message : LoadError → String
  | file error => error.message
  | yaml error => error.message
  | document error => error.message

/-- The rule for configurations that is broken, if the fault is of that kind. -/
def configError? : LoadError → Option ConfigError
  | document (.invalid error) => some error
  | _ => none

end LoadError

namespace Config

variable [DocumentReader]

/-- The configuration that the bytes of a file hold. -/
def ofBytes? (profile? : Option String) (bytes : List UInt8) : Except LoadError Config := do
  let (document, store) ← (DocumentReader.document? bytes).mapError .yaml
  (ofDocument? store profile? document).mapError .document

/-- The configuration in the file at a path, given what reading the file came to. -/
def ofFile? (profile? : Option String) (path : String) (content : Except FileError (List UInt8)) :
    Except LoadError Config :=
  match content with
  | .ok bytes => ofBytes? profile? bytes
  | .error (.missing _) | .error (.notDirectory _) | .error .nullCharacter =>
    .error (.document (.invalid (.fileMissing path)))
  | .error e => .error (.file e)

end Config

end Engraving
