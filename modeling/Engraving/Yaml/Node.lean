import Engraving.Yaml.Form
import Engraving.Yaml.Stream

/-!
# Nodes of the YAML notation

The tokens of a text make up a graph of nodes.
-/

namespace Engraving

/-! ## Graphs of nodes

The nodes of a text refer to each other by their places in a `Graph`. A node may stand at several
places of the text, even inside of itself, and yet there is one of it.
-/

namespace Yaml

inductive Content where
  | scalar (text : String)
  | sequence (items : List Nat)
  | mapping (entries : List (Nat × Nat))
  deriving DecidableEq, Repr

structure Node where
  tag : Tag
  content : Content
  deriving DecidableEq, Repr

abbrev Graph := Array Node

namespace Graph

def tag (g : Graph) (place : Nat) : Tag := (g[place]?.map Node.tag).getD .other

def content (g : Graph) (place : Nat) : Content := (g[place]?.map Node.content).getD (.scalar "")

/-- The entries of a node; only mappings have some. -/
def entries (g : Graph) (place : Nat) : List (Nat × Nat) :=
  match g.content place with
  | .mapping entries => entries
  | _ => []

/-- Changes what a node stands for. -/
def setTag (g : Graph) (place : Nat) (tag : Tag) : Graph := g.modify place ({ · with tag })

def setContent (g : Graph) (place : Nat) (content : Content) : Graph :=
  g.modify place ({ · with content })

/-- How many entries the mappings of a graph have. -/
def entryCount (g : Graph) : Nat :=
  g.foldl (fun n node ↦ match node.content with
    | .mapping entries => n + entries.length
    | _ => n) 0

end Graph

end Yaml

/-! ## Nodes from tokens

The tokens of a text make up nodes: scalars, sequences and mappings, each perhaps with a tag. A node
may be given a name by an anchor and stand at other places under that name, even inside of itself.
Tokens are asked for one by one, so that of a fault in the order of the tokens and a fault within a
later token the first one counts.

The notation allows what looks like several documents in one text; here there may be one at most.
Nodes may lie within each other up to a depth that is given: it depends on the place where documents
are read how much room there is.
-/

namespace Yaml

/-- What is known while nodes are read. -/
structure NodeState where
  scanner : Scanner
  handles : List (String × String)
  anchors : List (String × Nat) := []
  graph : Graph := #[]

abbrev Nodes := StateT NodeState (Except YamlError)

/-- What handles of tags stand for unless a directive says otherwise. -/
def standardHandles : List (String × String) := [("!", "!"), ("!!", Tag.start)]

namespace Nodes

def refuse {α : Type} : Nodes α := throw .malformed

/-! ### Tokens -/

def scan {α : Type} (step : Scan α) : Nodes α := do
  let (result, scanner) ← step.run (← get).scanner
  modify ({ · with scanner })
  return result

/-- The next token; there always is one, as the last is never passed. -/
def peek : Nodes Token := scan Scan.next

def skip : Nodes Unit := scan Scan.take

/-- Moves past a token if it is the given one; returns whether it was. -/
def accept (t : Token) : Nodes Bool := do
  if (← peek) = t then
    skip
    return true
  else return false

/-- Moves past a token that has to be there. -/
def expect (t : Token) : Nodes Unit := do unless ← accept t do refuse

/-- How often a repetition runs at most when every turn passes a token of its own. -/
def fuel : Nodes Nat := return (← get).scanner.cursor.size + 2

/-! ### Properties -/

/-- What stands before the content of a node. -/
structure Properties where
  anchor? : Option String := none
  tag? : Option String := none

def fullTag (handle? : Option String) (rest : String) : Nodes String := do
  match handle? with
  | none => return rest
  | some handle =>
    match (← get).handles.lookup handle with
    | some expansion => return expansion ++ rest
    | none => refuse

def anchor? : Nodes (Option String) := do
  match ← peek with
  | .anchor name =>
    skip
    return some name
  | _ => return none

/-- Reads a tag, if there is one, and with `readAnchor` an anchor after it. The tag is looked at
when all of that is read. -/
def tagged (anchor? : Option String) (readAnchor : Bool) : Nodes Properties := do
  match ← peek with
  | .tag handle? rest =>
    skip
    let anchor? ← if readAnchor then Nodes.anchor? else pure anchor?
    return { anchor?, tag? := some (← fullTag handle? rest) }
  | _ => return { anchor? }

/-- Reads an anchor and a tag, in either order. -/
def properties : Nodes Properties := do
  match ← anchor? with
  | some name => tagged (some name) false
  | none => tagged none true

namespace Properties

/-- Whether there is no tag, or one that says nothing. -/
def isFree (p : Properties) : Bool := p.tag?.all (· = "!")

/-- The tag of a node that has another one unless it is given. -/
def tagOr (p : Properties) (otherwise : Tag) : Tag :=
  match p.tag? with
  | some tag => if tag = "!" then otherwise else .ofText tag
  | none => otherwise

end Properties

/-! ### Nodes -/

def add (node : Node) : Nodes Nat := do
  let place := (← get).graph.size
  modify fun s ↦ { s with graph := s.graph.push node }
  return place

/-- Adds a node and gives it its name, which no other node may have. -/
def addNamed (p : Properties) (node : Node) : Nodes Nat := do
  let anchors := (← get).anchors
  if p.anchor?.any fun name ↦ (anchors.lookup name).isSome then refuse
  let place ← add node
  match p.anchor? with
  | some name => modify fun s ↦ { s with anchors := (name, place) :: s.anchors }
  | none => pure ()
  return place

def named (name : String) : Nodes Nat := do
  match (← get).anchors.lookup name with
  | some place => return place
  | none => refuse

/-- Adds the scalar where nothing is written. -/
def blank : Nodes Nat := add ⟨.null, .scalar ""⟩

/-- Adds a scalar. One without quotation marks and indicators has a tag by its form. -/
def scalar (p : Properties) (isPlain : Bool) (text : String) : Nodes Nat :=
  addNamed p ⟨p.tagOr (if isPlain then .ofPlain text else .text), .scalar text⟩

/-- A node without content, which has to have an anchor or a tag. -/
def missing (p : Properties) : Nodes Nat := do
  if p.anchor?.isNone && p.tag?.isNone then refuse
  scalar p p.isFree ""

/-- Reads a sequence, within which its name is known already. -/
def sequence (p : Properties) (items : Nat → Nodes (List Nat)) : Nodes Nat := do
  let place ← addNamed p ⟨p.tagOr .list, .sequence []⟩
  let items ← items (← fuel)
  modify fun s ↦ { s with graph := s.graph.setContent place (.sequence items) }
  return place

/-- Reads a mapping, within which its name is known already. -/
def mapping (p : Properties) (entries : Nat → Nodes (List (Nat × Nat))) : Nodes Nat := do
  let place ← addNamed p ⟨p.tagOr .mapping, .mapping []⟩
  let entries ← entries (← fuel)
  modify fun s ↦ { s with graph := s.graph.setContent place (.mapping entries) }
  return place

/-- Reads a node, unless one of some tokens follows. -/
def unlessNext (ends : List Token) (node : Nodes Nat) : Nodes Nat := do
  if ends.contains (← peek) then blank else node

/-- Reads a value after its mark, if there is one. -/
def valueAfter (ends : List Token) (node : Nodes Nat) : Nodes Nat := do
  if ← accept .value then unlessNext ends node else blank

/-! ### Collections -/

/-- Reads the items of a block sequence. -/
def blockItems (node : Nodes Nat) : Nat → Nodes (List Nat)
  | 0 => refuse
  | fuel + 1 => do
    if ← accept .blockEntry then
      let item ← unlessNext [.blockEntry, .blockEnd] node
      return item :: (← blockItems node fuel)
    else
      expect .blockEnd
      return []

/-- Reads the items of a sequence that is not indented. -/
def indentlessItems (node : Nodes Nat) : Nat → Nodes (List Nat)
  | 0 => refuse
  | fuel + 1 => do
    if ← accept .blockEntry then
      let item ← unlessNext [.blockEntry, .key, .value, .blockEnd] node
      return item :: (← indentlessItems node fuel)
    else return []

/-- Reads the entries of a block mapping. -/
def blockEntries (node : Nodes Nat) : Nat → Nodes (List (Nat × Nat))
  | 0 => refuse
  | fuel + 1 => do
    let ends := [.key, .value, .blockEnd]
    if ← accept .key then
      let key ← unlessNext ends node
      let value ← valueAfter ends node
      return (key, value) :: (← blockEntries node fuel)
    else
      expect .blockEnd
      return []

/-- Reads the key and the value of an entry between brackets. -/
def flowPair (closing : Token) (node : Nodes Nat) : Nodes (Nat × Nat) := do
  let key ← unlessNext [.value, .flowEntry, closing] node
  return (key, ← valueAfter [.flowEntry, closing] node)

/-- Reads the items of a sequence in brackets; an entry of a mapping is an item too. -/
def flowItems (node : Nodes Nat) (isFirst : Bool) : Nat → Nodes (List Nat)
  | 0 => refuse
  | fuel + 1 => do
    if ← accept .flowSequenceEnd then return []
    unless isFirst do expect .flowEntry
    if ← accept .flowSequenceEnd then return []
    let item ←
      if ← accept .key then
        mapping {} fun _ ↦ return [← flowPair .flowSequenceEnd node]
      else node
    return item :: (← flowItems node false fuel)

/-- Reads the entries of a mapping in braces; an item without a value is an entry too. -/
def flowEntries (node : Nodes Nat) (isFirst : Bool) : Nat → Nodes (List (Nat × Nat))
  | 0 => refuse
  | fuel + 1 => do
    if ← accept .flowMappingEnd then return []
    unless isFirst do expect .flowEntry
    if ← accept .flowMappingEnd then return []
    let entry ←
      if ← accept .key then flowPair .flowMappingEnd node
      else do
        let key ← node
        pure (key, ← blank)
    return entry :: (← flowEntries node false fuel)

/-- Reads a node. Block collections are read where `block` allows them, and sequences that are not
indented where `indentless` does. Others may lie within it up to a depth. -/
def node (block indentless : Bool) : Nat → Nodes Nat
  | 0 => throw .tooDeep
  | depth + 1 => do
    match ← peek with
    | .alias name =>
      skip
      named name
    | _ =>
      let p ← properties
      match ← peek with
      | .scalar isPlain text =>
        skip
        scalar p (p.isFree && (isPlain || p.tag?.isSome)) text
      | .flowSequenceStart => sequence p fun fuel ↦ do
        skip
        flowItems (node false false depth) true fuel
      | .flowMappingStart => mapping p fun fuel ↦ do
        skip
        flowEntries (node false false depth) true fuel
      | .blockEntry =>
        if indentless then sequence p (indentlessItems (node true false depth)) else missing p
      | .blockSequenceStart =>
        if block then
          sequence p fun fuel ↦ do
            skip
            blockItems (node true false depth) fuel
        else missing p
      | .blockMappingStart =>
        if block then
          mapping p fun fuel ↦ do
            skip
            blockEntries (node true true depth) fuel
        else missing p
      | _ => missing p

/-! ### Documents -/

/-- Reads directives and returns the handles of tags that they give. There may be one version, and
every handle may be given once. -/
def directives : Nat → Bool → List (String × String) → Nodes (List (String × String))
  | 0, _, _ => refuse
  | fuel + 1, versioned, handles => do
    match ← peek with
    | .version major _ =>
      skip
      if versioned || major ≠ 1 then refuse
      directives fuel true handles
    | .handle handle expansion =>
      skip
      if (handles.lookup handle).isSome then refuse
      directives fuel versioned ((handle, expansion) :: handles)
    | .directive =>
      skip
      directives fuel versioned handles
    | _ => return handles

/-- Reads directives and the mark that a document begins with. -/
def documentStart : Nodes Unit := do
  let handles ← directives (← fuel) false []
  expect .documentStart
  modify fun s ↦ { s with handles := handles ++ standardHandles }

/-- Moves past marks of the end of a document. -/
def documentEnds : Nat → Nodes Unit
  | 0 => return
  | fuel + 1 => do if ← accept .documentEnd then documentEnds fuel

/-- Whether a token begins a document with a mark. -/
def beginsExplicit : Token → Bool
  | .version .. | .handle .. | .directive | .documentStart => true
  | _ => false

/-- Reads the node of a text, if there is one, up to a depth. When another document begins the text is
refused. -/
def document (depth : Nat) : Nodes (Option Nat) := do
  let first ← peek
  if first = .streamEnd then return none
  if beginsExplicit first then documentStart
  let next ← peek
  let isBlank := beginsExplicit first &&
    (beginsExplicit next || next = .documentEnd || next = .streamEnd)
  let root ← if isBlank then blank else node true false depth
  documentEnds (← fuel)
  unless (← peek) = .streamEnd do
    documentStart
    refuse
  return some root

end Nodes

/-- The nodes in a text and the place of the outermost one, if there is one. -/
def Graph.ofText? (depth : Nat) (text : TextBlocks) : Except YamlError (Graph × Option Nat) := do
  let scanner := { cursor := ← Cursor.start text }
  let (root?, s) ← (Nodes.document depth).run { scanner, handles := standardHandles }
  return (s.graph, root?)

end Yaml

end Engraving
