import Engraving.Document.Conversion
import Engraving.Text.Case
import Engraving.Text.Encoding
import Engraving.Yaml.Form
import Engraving.Yaml.Node

/-!
# Documents from the YAML notation

The nodes of a text become the values of a document: scalars by their tags, mappings after the
merging of others into them.
-/

namespace Engraving

/-! ## Values of scalars

A scalar's text is read as what its tag says. The tag may be one that the text's form does not
suggest; then the text is read all the same, or refused.
-/

namespace Yaml

/-! ### Integers and floats -/

/-- An integer in base sixty, from the places of a text. -/
def sexagesimal? (text : List Char) : Except YamlError Int := do
  let parts ← (colonParts text).mapM fun part ↦
    (wholeOfText? 10 (String.ofList part)).mapError .conversion
  .ok (parts.foldl (fun n part ↦ 60 * n + part) 0)

/-- The integer that a scalar denotes. -/
def wholeOf? (text : List Char) : Except YamlError Int := do
  let plain := text.filter (· ≠ '_')
  if plain.isEmpty then throw .noDigits
  let digits := unsigned plain
  let read (base : Nat) (digits : List Char) : Except YamlError Int :=
    (wholeOfText? base (String.ofList digits)).mapError .conversion
  let n ←
    match digits with
    | [] => throw .noDigits
    | ['0'] => pure 0
    | '0' :: 'b' :: rest => read 2 rest
    | '0' :: 'x' :: rest => read 16 rest
    | '0' :: _ => read 8 digits
    | _ => if digits.contains ':' then sexagesimal? digits else read 10 digits
  .ok (if plain.head? = some '-' then -n else n)

/-- A float in base sixty: the places, from the last one on, are added up with their weights, each
of which has to be a float. -/
def sexagesimalReal? (text : List Char) : Except YamlError Float := do
  let parts ← (colonParts text).mapM fun part ↦
    (realOfText? (String.ofList part)).mapError .conversion
  parts.reverse.zipIdx.foldlM (fun x (part, i) ↦ do
    let weight ← (wholeFloat? (Nat.pow 60 i)).mapError fun e ↦ .conversion (.number e)
    return x + part * weight) 0

/-- The float that a scalar denotes. One that is no number, unless it goes by its name, is a value
of its own. -/
def realOf? (place : Nat) (text : List Char) : Except YamlError Document := do
  let plain := lowerCase (text.filter (· ≠ '_'))
  if plain.isEmpty then throw .noDigits
  let digits := unsigned plain
  let signed (x : Float) : Document :=
    if x.isNaN then .unknown place else .real (if plain.head? = some '-' then -x else x)
  if digits = ['.', 'i', 'n', 'f'] then return signed infiniteFloat
  else if digits = ['.', 'n', 'a', 'n'] then return .real undefinedFloat
  else if digits.contains ':' then return signed (← sexagesimalReal? digits)
  else return signed (← (realOfText? (String.ofList digits)).mapError .conversion)

/-! ### Other values -/

/-- The truth value that a scalar denotes. -/
def boolOf? (text : String) : Except YamlError Bool :=
  let word := String.ofList (lowerCase text.toList)
  match boolWords.lookup word with
  | some b => .ok b
  | none => .error (.notBool word)

def bytesOf? (text : List Char) : Except YamlError (List UInt8) :=
  match decodeBase64? text with
  | some bytes => if text.all (·.toNat < 0x80) then .ok bytes else .error .malformed
  | none => .error .malformed

/-- The millionths in the digits of a fraction of a second. -/
def millionths (digits : List Char) : Nat :=
  let shown := digits.take 6
  digitsValue (shown ++ List.replicate (6 - shown.length) '0')

/-- The date or the instant that a scalar denotes. -/
def dateValue? (text : List Char) : Except YamlError Document :=
  match dateOf? text with
  | none => .error .notDate
  | some d =>
    let month := digitsValue d.month
    let day := digitsValue d.day
    match d.time? with
    | none => ((Date.of? d.year month day).mapError .date).map .date
    | some t =>
      ((Instant.of? d.year month day t.hour t.minute t.second (millionths t.fraction)
        t.offset?).mapError .date).map .instant

/-- The value of a scalar at a place; a tag of collections or keys gives none. -/
def scalarValue? (place : Nat) (tag : Tag) (text : String) : Except YamlError Document :=
  match tag with
  | .null => .ok .null
  | .bool => (boolOf? text).map .bool
  | .whole => (wholeOf? text.toList).map .whole
  | .real => realOf? place text.toList
  | .bytes => (bytesOf? text.toList).map .bytes
  | .date => dateValue? text.toList
  | .text => .ok (.text text)
  | _ => .error .malformed

end Yaml

/-! ## Merging of mappings

A mapping may take over the entries of others, by keys that stand for that. These entries come
first, so that its own ones win; of several mappings in a list the first wins. A source is merged
itself before its entries are taken, and every merging changes the graph for good.

A mapping may be a source of itself, directly or through others. So a key that stands for a merge
is removed before its source is looked at, which bounds the whole by the number of entries.
-/

namespace Yaml

abbrev Merge := StateT Graph (Except YamlError)

namespace Merge

/-- Removes the first of a mapping's entries that stand for a merge, and returns its source. -/
def takeSource? (place : Nat) : Merge (Option Nat) := do
  let g ← get
  let entries := g.entries place
  match entries.findIdx? fun (key, _) ↦ g.tag key = .merge with
  | none => return none
  | some i =>
    set (g.setContent place (.mapping (entries.eraseIdx i)))
    return entries[i]?.map Prod.snd

/-- Makes texts of the keys of a mapping that stand for its default value. -/
def plainKeys (place : Nat) : Merge Unit := do
  (← get).entries place |>.forM fun (key, _) ↦
    modify fun g ↦ if g.tag key = .default then g.setTag key .text else g

/-- Merges the mapping at a place, of which `gather` returns the entries that it takes over, and
returns all of its entries. -/
def mergedEntries (gather : Nat → Merge (List (Nat × Nat))) (place : Nat) :
    Merge (List (Nat × Nat)) := do
  match (← get).content place with
  | .mapping _ =>
    plainKeys place
    let taken ← gather place
    let entries := taken ++ (← get).entries place
    modify (·.setContent place (.mapping entries))
    return entries
  | _ => throw .malformed

/-- The entries that the mapping at a place takes over. Every turn removes an entry that stands for
a merge, and none is ever added, so that fuel beyond their number is not used up. -/
def gather : Nat → Nat → Merge (List (Nat × Nat))
  | 0, _ => return []
  | fuel + 1, place => do
    match ← takeSource? place with
    | none => return []
    | some source =>
      let taken ←
        match (← get).content source with
        | .sequence items => do
          let parts ← items.mapM (mergedEntries (gather fuel))
          pure parts.reverse.flatten
        | _ => mergedEntries (gather fuel) source
      return taken ++ (← gather fuel place)

end Merge

/-- Merges the mapping at a place and returns its entries; other nodes have none. -/
def Graph.merged? (g : Graph) (place : Nat) : Except YamlError (List (Nat × Nat) × Graph) :=
  (Merge.mergedEntries (Merge.gather (g.entryCount + 1)) place).run g

end Yaml

/-! ## Documents

The nodes of a text become values. A scalar becomes one when it is met. A collection is only set
down then and filled later, in the order in which collections were met; so of two faults the one
that lies less deep is reported, and of two on one level the first.

What stands at several places is built once.
-/

namespace Yaml

/-- What is known while values are built. -/
structure BuildState where
  graph : Graph
  /-- How deep mappings that stand for their default values may lie within each other. -/
  depth : Nat
  store : Store := Array.replicate graph.size .null
  /-- The values of the nodes that were met, by place. -/
  values : Array (Option Document) := Array.replicate graph.size none
  /-- The places of the collections that were met, in order. -/
  met : Array Nat := #[]

abbrev Build := StateT BuildState (Except YamlError)

namespace Build

def refuse {α : Type} : Build α := throw .malformed

/-- The text of a scalar. A mapping has that of the value under the first key that stands for its
default, where nodes may lie within each other up to a depth. -/
def scalarText? (g : Graph) : Nat → Nat → Except YamlError String
  | 0, _ => .error .tooDeep
  | depth + 1, place =>
    match g.content place with
    | .scalar text => .ok text
    | .sequence _ => .error .malformed
    | .mapping entries =>
      match entries.find? fun (key, _) ↦ g.tag key = .default with
      | some (_, value) => scalarText? g depth value
      | none => .error .malformed

def isMapping (g : Graph) (place : Nat) : Bool :=
  match g.content place with
  | .mapping _ => true
  | _ => false

/-- The value of a node, which is built unless the node was met before. -/
def value (place : Nat) : Build Document := do
  let s ← get
  match s.values[place]?.getD none with
  | some found => return found
  | none =>
    let tag := s.graph.tag place
    let isCollection := [Tag.list, .pairs, .set, .mapping].contains tag
    let built ←
      if isCollection then pure (Document.shared place)
      else do
        if tag = .merge || tag = .default || tag = .other then refuse
        let text ← scalarText? s.graph s.depth place
        if tag = .date && isMapping s.graph place then throw .dateKind
        scalarValue? place tag text
    modify fun s ↦ { s with
      values := s.values.setIfInBounds place (some built)
      met := if isCollection then s.met.push place else s.met }
    return built

def items (place : Nat) : Build (List Nat) := do
  match (← get).graph.content place with
  | .sequence items => return items
  | _ => refuse

/-- The entries of a mapping, with those that it takes over from others. -/
def entries (place : Nat) : Build (List (Nat × Nat)) := do
  let (entries, graph) ← (← get).graph.merged? place
  modify ({ · with graph })
  return entries

/-- The key and the value of an entry of a mapping. -/
def entry : Nat × Nat → Build (Document × Document)
  | (keyPlace, valuePlace) => do
    let key ← value keyPlace
    unless key.isKey do refuse
    return (key, ← value valuePlace)

/-- The pair that a mapping of one entry stands for. -/
def pair (place : Nat) : Build Document := do
  match (← get).graph.content place with
  | .mapping [(first, second)] => return .pair (← value first) (← value second)
  | _ => refuse

/-- The collection that a node stands for. -/
def collection (place : Nat) : Build Document := do
  match (← get).graph.tag place with
  | .list => return .list (← (← items place).mapM value)
  | .pairs => return .list (← (← items place).mapM pair)
  | .set =>
    match Document.ofEntries (← (← entries place).mapM entry) with
    | .mapping entries => return .ofMembers (entries.map Prod.fst)
    | other => return other
  | _ => return .ofEntries (← (← entries place).mapM entry)

/-- Fills collections in the order in which they were met, from the one with a number on. Each is
met once, so fuel beyond the number of nodes is never used up. -/
def fill : Nat → Nat → Build Unit
  | 0, _ => return
  | fuel + 1, number => do
    match (← get).met[number]? with
    | none => return
    | some place =>
      let built ← collection place
      modify fun s ↦ { s with store := s.store.setIfInBounds place built }
      fill fuel (number + 1)

/-- The value of a node, with all collections in it. -/
def all (place : Nat) : Build Document := do
  let root ← value place
  fill ((← get).graph.size + 1) 0
  return root

end Build

end Yaml

/-- The document in a text in the YAML notation, and its collections; a text that holds none stands
for no value. Nodes may lie within each other up to a depth. -/
def Document.ofYaml? (depth : Nat) (text : TextBlocks) : Except YamlError (Document × Store) := do
  match ← Yaml.Graph.ofText? depth text with
  | (_, none) => return (.null, #[])
  | (graph, some root) =>
    let (document, s) ← (Yaml.Build.all root).run { graph, depth }
    return (document, s.store)

end Engraving
