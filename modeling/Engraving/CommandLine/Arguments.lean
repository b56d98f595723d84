import Engraving.CommandLine.Host
import Engraving.Config.Loading
import Engraving.Files
import Engraving.Number.Reading
import Engraving.Text.Character

/-!
# Command lines

A command line says where the configuration is, how much is told, and what is to be done: an image
is compiled, or a program is previewed. What is given for a command goes before what is configured,
even when it is zero.
-/

namespace Engraving.CommandLine

/-! ## Options on a command line

The words of a command line are arguments or options. What an option does is part of its
description: it changes the settings of the command, with or without a value. The value is attached
by an equals sign, or else is the next word, which must be an argument. The name of an option may be
cut short as long as only one name begins so; every command has the option for help.

A word that begins with a hyphen is an argument after all when it is a lone hyphen, a negative
number, or a word with a space that begins like no option. Two hyphens make arguments of all words
behind them.

Words are classified all at once, before any of them takes effect: a name that could be several
options is refused wherever it stands.
-/

inductive Refusal where
  | help
  | usage
  deriving DecidableEq, Repr

def Refusal.code : Refusal → Nat
  | help => 0
  | usage => 2

/-- What an option does to the settings `σ`. -/
inductive Effect (σ : Type) where
  | switch (put : σ → σ)
  | value (put? : String → σ → Option σ)
  | help

/-- The options of a command by their names. -/
abbrev Options (σ : Type) := List (String × Effect σ)

/-- A word of a command line. -/
inductive Item (σ : Type) where
  | argument
  /-- Two hyphens, the first time. -/
  | separator
  | option (effect : Effect σ) (attached? : Option String)
  | unknown

/-! ### Classification -/

/-- The long name of the option for help. -/
def helpName : String := "--help"

def Options.withHelp {σ : Type} (options : Options σ) : Options σ := (helpName, .help) :: options

/-- Whether the text behind a hyphen makes a negative number: digits, or digits with a point that
has digits behind it. One line feed may follow. -/
def isUnsignedNumber (text : List Char) : Bool :=
  let text := if text.getLast? = some '\n' then text.dropLast else text
  match text.dropWhile isDigit with
  | [] => !text.isEmpty
  | '.' :: fraction => !fraction.isEmpty && fraction.all isDigit
  | _ => false

/-- A word that begins like no option. -/
def nonOption {σ : Type} (text : List Char) : Item σ :=
  if isUnsignedNumber (text.drop 1) || text.contains ' ' then .argument else .unknown

/-- What stands behind the first equals sign, if there is one. -/
def attachedText? (text : List Char) : Option String :=
  if text.contains '=' then some (String.ofList ((text.dropWhile (· ≠ '=')).drop 1)) else none

/-- A word that begins with two hyphens. -/
def longItem? {σ : Type} (options : Options σ) (text : List Char) : Except Refusal (Item σ) :=
  let name := text.takeWhile (· ≠ '=')
  let attached? := attachedText? text
  match options.lookup (String.ofList name) with
  | some effect => .ok (.option effect attached?)
  | none =>
    match options.filter fun option ↦ name.isPrefixOf option.1.toList with
    | [] => .ok (nonOption text)
    | [(_, effect)] => .ok (.option effect attached?)
    | _ => .error .usage

/-- A word that begins with the short name for help. More short names may be attached, also behind
an equals sign, and nothing else. -/
def shortHelp {σ : Type} (attached : List Char) : Item σ :=
  let isMore :=
    match attached with
    | '=' :: names => !names.isEmpty && names.all (· = 'h')
    | names => names.all (· = 'h')
  .option .help (if isMore then none else some (String.ofList attached))

/-- The item that a word is, before two hyphens. -/
def item? {σ : Type} (options : Options σ) (word : String) : Except Refusal (Item σ) :=
  match word.toList with
  | '-' :: '-' :: _ => longItem? options.withHelp word.toList
  | '-' :: 'h' :: attached => .ok (shortHelp attached)
  | '-' :: _ :: _ => .ok (nonOption word.toList)
  | _ => .ok .argument

/-- The items of a command line beside their words. -/
def items? {σ : Type} (options : Options σ) : List String → Except Refusal (List (String × Item σ))
  | [] => .ok []
  | word :: rest =>
    if word = "--" then .ok ((word, .separator) :: rest.map fun word ↦ (word, .argument))
    else do
      let item ← item? options word
      return (word, item) :: (← items? options rest)

/-! ### Taking effect -/

/-- A command line in the course of being read. -/
structure Progress (σ : Type) where
  settings : σ
  /-- The option that waits for its value. -/
  waiting? : Option (String → σ → Option σ) := none
  operand? : Option String := none
  justTaken : Bool := false
  /-- Whether there was a word that has no meaning. -/
  surplus : Bool := false

namespace Progress

variable {σ : Type}

def give? (p : Progress σ) (put? : String → σ → Option σ) (text : String) :
    Except Refusal (Progress σ) :=
  match put? text p.settings with
  | some settings => .ok { p with settings, waiting? := none, justTaken := false }
  | none => .error .usage

def option? (p : Progress σ) : Effect σ → Option String → Except Refusal (Progress σ)
  | .help, none => .error .help
  | .switch put, none => .ok { p with settings := put p.settings, justTaken := false }
  | .value put?, none => .ok { p with waiting? := some put?, justTaken := false }
  | .value put?, some text => p.give? put? text
  | _, some _ => .error .usage

/-- Takes up an argument: it is the value that is waited for, or else the argument of the command,
if that is not there yet. -/
def argument? (p : Progress σ) (word : String) : Except Refusal (Progress σ) :=
  match p.waiting?, p.operand? with
  | some put?, _ => p.give? put? word
  | none, none => .ok { p with operand? := some word, justTaken := true }
  | none, some _ => .ok { p with surplus := true, justTaken := false }

/-- Takes up a word. An option that waits for its value accepts nothing but an argument. Two hyphens
mean nothing anywhere but right beside the argument of the command. -/
def step? (p : Progress σ) (word : String × Item σ) : Except Refusal (Progress σ) :=
  match word.2, p.waiting? with
  | .argument, _ => p.argument? word.1
  | _, some _ => .error .usage
  | .option effect attached?, none => p.option? effect attached?
  | .unknown, none => .ok { p with surplus := true, justTaken := false }
  | .separator, none =>
    .ok { p with
      surplus := p.surplus || (p.operand?.isSome && !p.justTaken)
      justTaken := false }

/-- Takes up all words; in the end no option waits for its value, and the argument of the command is
there. -/
def all? (p : Progress σ) (words : List (String × Item σ)) :
    Except Refusal (Progress σ × String) := do
  let p ← words.foldlM step? p
  match p.waiting?, p.operand? with
  | none, some operand => .ok (p, operand)
  | _, _ => .error .usage

/-- Takes up words up to the first argument that is no value; returns it with the words behind
it. Two hyphens cannot stand before it. -/
def leading? (p : Progress σ) :
    List (String × Item σ) → Except Refusal (Progress σ × String × List String)
  | [] => .error .usage
  | (word, item) :: rest =>
    match item, p.waiting? with
    | .argument, none => .ok (p, word, rest.map Prod.fst)
    | .separator, _ => .error .usage
    | _, _ => do leading? (← p.step? (word, item)) rest

end Progress

/-! ## Commands -/

/-- What is said about compiling an image. -/
structure CompileArguments where
  output : String := "output.gcode"
  width? : Option Float := none
  height? : Option Float := none
  startX? : Option Float := none
  startY? : Option Float := none
  maxPower? : Option Int := none
  feedRate? : Option Int := none
  invert : Bool := false
  optimize : Bool := false

/-- What is said about previewing a program. -/
structure PreviewArguments where
  output : String := "gcode_preview.png"
  width? : Option Int := none
  height? : Option Int := none

/-- What is said for all commands. -/
structure GlobalArguments where
  config? : Option String := none
  profile? : Option String := none
  /-- Below which level nothing is told. -/
  threshold : LogLevel := .info

inductive Command where
  | compile (image : String) (arguments : CompileArguments)
  | preview (program : String) (arguments : PreviewArguments)

structure Request where
  arguments : GlobalArguments
  command : Command

/-! ## Options -/

/-- An option whose value is any text. -/
def textOption {σ : Type} (put : String → σ → σ) : Effect σ := .value fun text s ↦ some (put text s)

def pathOption {σ : Type} (put : String → σ → σ) : Effect σ :=
  .value fun text s ↦ some (put (normalPath text) s)

def realOption {σ : Type} (put : Float → σ → σ) : Effect σ :=
  .value fun text s ↦ (readFloat? text.toList).map (put · s)

/-- An option whose value is an integer. -/
def wholeOption {σ : Type} (put : Int → σ → σ) : Effect σ :=
  .value fun text s ↦ (readWhole? 10 text.toList).toOption.map (put · s)

def GlobalArguments.options : Options GlobalArguments := [
  ("--config", pathOption fun path a ↦ { a with config? := some path }),
  ("--laser-profile", textOption fun name a ↦ { a with profile? := some name }),
  ("--log-level", .value fun name a ↦
    (LogLevel.ofName? name).map fun threshold ↦ { a with threshold })]

def CompileArguments.options : Options CompileArguments := [
  ("--output", pathOption fun output a ↦ { a with output }),
  ("--width-mm", realOption fun x a ↦ { a with width? := some x }),
  ("--height-mm", realOption fun x a ↦ { a with height? := some x }),
  ("--start-x", realOption fun x a ↦ { a with startX? := some x }),
  ("--start-y", realOption fun x a ↦ { a with startY? := some x }),
  ("--max-power", wholeOption fun n a ↦ { a with maxPower? := some n }),
  ("--feed-rate", wholeOption fun n a ↦ { a with feedRate? := some n }),
  ("--invert", .switch fun a ↦ { a with invert := true }),
  ("--optimize", .switch fun a ↦ { a with optimize := true })]

def PreviewArguments.options : Options PreviewArguments := [
  ("--output", pathOption fun output a ↦ { a with output }),
  ("--width", wholeOption fun n a ↦ { a with width? := some n }),
  ("--height", wholeOption fun n a ↦ { a with height? := some n })]

/-! ## Reading -/

def command? (name : String) (words : List String) : Except Refusal (Bool × Command) :=
  match name with
  | "compile" => do
    let (p, image) ← Progress.all? { settings := {} } (← items? CompileArguments.options words)
    return (p.surplus, .compile (normalPath image) p.settings)
  | "preview" => do
    let (p, program) ← Progress.all? { settings := {} } (← items? PreviewArguments.options words)
    return (p.surplus, .preview (normalPath program) p.settings)
  | _ => .error .usage

/-- The request that the words of a command line make. -/
def Request.ofWords? (words : List String) : Except Refusal Request := do
  let (p, name, rest) ←
    Progress.leading? { settings := {} } (← items? GlobalArguments.options words)
  let (surplus, command) ← command? name rest
  if p.surplus || surplus then .error .usage else .ok ⟨p.settings, command⟩

/-! ## Precedence -/

/-- A configuration under what is said about compiling. -/
def CompileArguments.override (a : CompileArguments) (c : Config) : Config :=
  { c with
    laser :=
      { c.laser with
        maxPower := a.maxPower?.getD c.laser.maxPower
        feedRate := a.feedRate?.getD c.laser.feedRate }
    layout := {
      width := a.width?.getD c.layout.width
      height := a.height?.getD c.layout.height
      startX := a.startX?.getD c.layout.startX
      startY := a.startY?.getD c.layout.startY
      invert := a.invert || c.layout.invert
      coalesce := a.optimize || c.layout.coalesce } }

/-- A style under what is said about previewing. -/
def PreviewArguments.override (a : PreviewArguments) (s : PreviewStyle) : PreviewStyle :=
  { s with width := a.width?.getD s.width, height := a.height?.getD s.height }

end Engraving.CommandLine
