import Engraving.CommandLine.Arguments
import Engraving.CommandLine.Host
import Engraving.Config.Loading
import Engraving.Duration
import Engraving.Program.Job
import Engraving.Text.Case
import Engraving.Toolpath.Reading

/-!
# Runs

A run loads the configuration, does what is requested, and ends with an exit code. A broken rule for
configurations, and every failure that comes from what the files and the arguments hold, is told as
an error. A run stops without an exit code when a number leaves the range in which it can be
computed with, when a configuration file is unreadable, or when a library fails in a way that is not
foreseen: in decoding a picture, or in making the outline of a preview.
-/

namespace Engraving.CommandLine

/-! ## Failures -/

inductive RunError where
  | config (error : LoadError)
  | file (error : FileError)
  | picture (error : PictureError)
  | setting (error : SettingError Quantity)
  | number (error : NumberError)
  | program (error : ProgramError)
  | figure (error : FigureError)
  /-- No ring can be made of the outline of a drawing. -/
  | outline (objection : String)
  | format (name : String)
  /-- A picture would have too many pixels along a side. -/
  | pictureSize (width height : Nat)

/-- The formats in which pictures may be asked for. -/
def formats : List String :=
  ["avif", "eps", "gif", "jpeg", "jpg", "pdf", "pgf", "png", "ps", "raw", "rgba", "svg", "svgz",
    "tif", "tiff", "webp"]

/-- How many pixels a picture may not have along a side. -/
def sideLimit : Nat := 65536

namespace RunError

def message : RunError → String
  | config error => error.message
  | file error => error.message
  | picture error => error.message
  | setting error => error.message
  | number error => error.message
  | program error => error.message
  | figure error => error.message
  | outline objection => objection
  | format name =>
    "Format " ++ quoted name ++ " is not supported (supported formats: " ++
      ", ".intercalate formats ++ ")"
  | pictureSize width height =>
    "Image size of " ++ toString width ++ "x" ++ toString height ++
      " pixels is too large. It must be less than 2^16 in each direction."

/-- The failure of a number that lies behind a failure. -/
def number? : RunError → Option NumberError
  | number e | setting (.number e) | figure (.number e) => some e
  | _ => none

/-- Whether a failure is told, with the exit code that stands for failure. Of numbers only what is
undefined is, and what is too long to be written; of what libraries say, what is foreseen. -/
def isTold (e : RunError) : Bool :=
  match e with
  | config e => e.configError?.isSome
  | picture e => e.isCaught
  | outline _ => false
  | e => e.number?.all fun number ↦ number = .undefined || number = .tooLong

end RunError

/-! ## Steps -/

variable {m : Type → Type} [Monad m] [Host m]

abbrev Step (m : Type → Type) := ExceptT RunError m

/-- Tells a record, unless it lies below the threshold. -/
def note (threshold level : LogLevel) (message : String) : m Unit :=
  if threshold.passes level then Host.tell ⟨level, message⟩ else pure ()

namespace Step

def ofExcept {ε α : Type} (failure : ε → RunError) (result : Except ε α) : Step m α :=
  ExceptT.mk (pure (result.mapError failure))

def read (path : String) : Step m (List UInt8) := do
  ofExcept .file (← Host.read path)

def write (path : String) (content : FileContent) : Step m Unit := do
  ofExcept .file (← Host.write path content)

end Step

/-! ## Configuration -/

/-- Loads the configuration that is asked for. -/
def loadConfig [DocumentReader] (a : GlobalArguments) : Step m Config :=
  match a.config?, a.profile? with
  | some path, profile? => do
    Step.ofExcept .config (Config.ofFile? profile? path (← Host.read path))
  | none, some _ => throw (.config (.document (.invalid .profileAlone)))
  | none, none => pure {}

/-! ## Compiling -/

/-- The job that a configuration describes. -/
def jobOf (c : Config) : Job where
  width := .real c.layout.width
  height := .real c.layout.height
  maxPower := .whole c.laser.maxPower
  feedRate := .whole c.laser.feedRate
  startX := .real c.layout.startX
  startY := .real c.layout.startY
  invert := c.layout.invert
  pass := if c.layout.coalesce then .coalesce else .identity

/-- What is told about an image that is going to be compiled. -/
def convertingText (grid : Grid) (laser : Laser) (setting : Setting Quantity) :
    Except NumberError String :=
  return "Converting " ++ toString grid.width ++ "x" ++ toString grid.height ++
    " image with laser '" ++ laser.name ++ "', step X=" ++ (← setting.step.fixed? 4).text ++
    "mm Y=" ++ (← setting.rowPitch.fixed? 4).text ++ "mm"

/-- What is told about a program in the end. -/
def travelText (piece : Workpiece Quantity) : Except NumberError String :=
  return "Travel " ++ (← piece.distance.fixed? 1).text ++ " mm, estimated engraving time " ++
    (← durationText? piece.elapsed)

/-- Compiles an image under a configuration. -/
def compileImage [PictureDecoder] (threshold : LogLevel) (image output : String) (c : Config) :
    Step m Unit := do
  let grid ← Step.ofExcept .picture (sample? (← Step.read image))
  note threshold .debug
    ("Sampled " ++ toString grid.width ++ "x" ++ toString grid.height ++ " luminance grid")
  let job := jobOf c
  let setting ← Step.ofExcept .setting (job.setting? grid)
  note threshold .info (← Step.ofExcept .number (convertingText grid c.laser setting))
  let piece ← Step.ofExcept .number (compile? setting grid job.startX job.startY)
  let lines := job.pass.apply piece.texts
  Step.write output (.text (programText lines))
  note threshold .info ("Wrote " ++ toString lines.length ++ " G-code lines to " ++ output)
  note threshold .info (← Step.ofExcept .number (travelText piece))

/-! ## Previewing -/

/-- The path at which a picture is saved: one without an extension gets that of the format. -/
def pictureFile? (output : String) : Except RunError String :=
  match pathExtension output with
  | "" => .ok (dropFinalDots output ++ ".png")
  | extension =>
    let format := String.ofList (lowerCase extension.toList)
    if formats.contains format then .ok output else .error (.format format)

/-- Refuses a picture with too many pixels along a side. -/
def checkPicture? (f : Figure) : Except RunError Unit :=
  if sideLimit ≤ f.width || sideLimit ≤ f.height then .error (.pictureSize f.width f.height)
  else .ok ()

def toolpathText (t : Toolpath) : String :=
  let b := t.bounds
  let places (x : Float) := (FixedPoint.ofFloat 2 x).text
  toString t.lineCount ++ " lines | " ++ toString t.segments.length ++ " movements | X(" ++
    places b.minX ++ " to " ++ places b.maxX ++ ") Y(" ++ places b.minY ++ " to " ++
    places b.maxY ++ ")"

def previewProgram [RingMaker] (threshold : LogLevel) (program output : String)
    (style : PreviewStyle) : Step m Unit := do
  let path ← Step.ofExcept .program (Toolpath.ofBytes? false (← Step.read program))
  path.idleLines.forM fun (number, line) ↦ note threshold .debug
    ("Line " ++ toString number ++ " has no motion command: " ++ String.ofList line)
  if 0 < path.arcCount then
    note threshold .debug
      ("Approximated " ++ toString path.arcCount ++ " arc moves as straight chords")
  note threshold .info (toolpathText path)
  let figure ← Step.ofExcept .figure
    (Figure.ofToolpath? path style.width style.height style .identity)
  Step.ofExcept .outline figure.checkOutline?
  let file ← Step.ofExcept id (pictureFile? output)
  Step.ofExcept id (checkPicture? figure)
  Step.write file (.figure figure)
  note threshold .info ("Saved toolpath preview to " ++ output)

/-! ## Requests -/

def perform [PictureDecoder] [RingMaker] (r : Request) (c : Config) : Step m Unit :=
  match r.command with
  | .compile image a => compileImage r.arguments.threshold image a.output (a.override c)
  | .preview program a =>
    previewProgram r.arguments.threshold program a.output (a.override c.preview)

/-- How the record of a failure begins. -/
def Command.failureText : Command → String
  | .compile image _ => "Failed to compile " ++ image ++ ": "
  | .preview program _ => "Failed to preview " ++ program ++ ": "

/-- Ends a run with the exit code of its outcome, or with the failure that is not told. -/
def conclude (threshold : LogLevel) (start : String) (outcome : Except RunError Unit) :
    m (Except RunError Nat) :=
  match outcome with
  | .ok () => pure (.ok 0)
  | .error e =>
    if e.isTold then do
      note threshold .error (start ++ e.message)
      pure (.ok 1)
    else pure (.error e)

variable [DocumentReader] [PictureDecoder] [RingMaker]

def Request.run (r : Request) : m (Except RunError Nat) := do
  let threshold := r.arguments.threshold
  match ← (loadConfig r.arguments).run with
  | .error e => conclude threshold "Invalid configuration: " (.error e)
  | .ok config => conclude threshold r.command.failureText (← (perform r config).run)

def runWords (words : List String) : m (Except RunError Nat) :=
  match Request.ofWords? words with
  | .ok request => request.run
  | .error refusal => pure (.ok refusal.code)

/-- Carries out a command line on a workbench. -/
def runOn (words : List String) (w : Workbench) : Except RunError Nat × Workbench :=
  (runWords words : StateM Workbench (Except RunError Nat)).run w

end Engraving.CommandLine
