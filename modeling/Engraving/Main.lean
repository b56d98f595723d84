import Engraving.CommandLine.Run
import Engraving.Preview.Canvas

/-!
# The program

The command line of this machine is carried out with its files. Records go to the error stream.
-/

namespace Engraving.CommandLine

/-- What is said about the use of the program. -/
def usage : List String := [
  "usage: engraving [--config PATH] [--laser-profile NAME] [--log-level LEVEL] COMMAND ...",
  "",
  "  compile [--output PATH] [--width-mm X] [--height-mm Y] [--start-x X] [--start-y Y]",
  "          [--max-power PERCENT] [--feed-rate RATE] [--invert] [--optimize] IMAGE",
  "  preview [--output PATH] [--width PIXELS] [--height PIXELS] PROGRAM"]

/-- The number of the failure to take a file for a directory. -/
def notDirectoryCode : UInt32 := 20

/-- The number of the failure to use a name that is too long. -/
def tooLongCode : UInt32 := 36

/-- Why a file of this machine cannot be used, given what the machine says about it. -/
def fileError (path : String) : IO.Error → FileError
  | .noFileOrDirectory .. => .missing path
  | .invalidArgument _ code _ => if code = tooLongCode then .tooLong path else .denied path
  | .inappropriateType _ code _ =>
    if code = notDirectoryCode then .notDirectory path else .isDirectory path
  | _ => .denied path

/-- The bytes of what is written to a file. -/
def contentBytes : FileContent → List UInt8
  | .text s => s.toUTF8.toList
  | .figure f => f.png

/-- Uses a file, unless there is none that could have the path. -/
def useFile {α : Type} (path : String) (use : IO α) : IO (Except FileError α) := do
  if path.contains '\x00' then return .error .nullCharacter
  try return .ok (← use)
  catch e => return .error (fileError path e)

instance : Host IO where
  read path := useFile path do return (← IO.FS.readBinFile path).toList
  write path content := useFile path do IO.FS.writeBinFile path ⟨(contentBytes content).toArray⟩
  tell record := IO.eprintln record.text

/-- Carries out a command line on this machine; returns the exit code. -/
def runHere (words : List String) : IO UInt32 := do
  match ← (runWords words : IO (Except RunError Nat)) with
  | .ok code =>
    if let .error refusal := Request.ofWords? words then
      let stream ← if refusal = .help then IO.getStdout else IO.getStderr
      stream.putStrLn ("\n".intercalate usage)
    return UInt32.ofNat code
  | .error e =>
    IO.eprintln e.message
    return 1

end Engraving.CommandLine

def main (words : List String) : IO UInt32 := Engraving.CommandLine.runHere words
