import Engraving.Preview.Figure
import Engraving.Text.Quoted

/-!
# Files and paths

A path is normalised before it is used or shown: empty parts and single dots are left out, and a
path of nothing is a single dot. Names and paths may have a certain length, and no null characters.

A `Disk` is a working directory with files in it, together with what is said about it here: which
paths lead to files, which to directories, and which nowhere. A path is followed name by name up to
the first that leads nowhere. A disk denies nothing.
-/

namespace Engraving

/-! ## Paths -/

/-- How many slashes of those that a path begins with are kept. -/
def rootLength (text : List Char) : Nat :=
  match (text.takeWhile (· = '/')).length with
  | 0 => 0
  | 2 => 2
  | _ => 1

/-- The parts of a path between slashes, without empty ones and single dots. -/
def pathParts (text : List Char) : List String :=
  ((text.splitOn '/').map String.ofList).filter fun part ↦ part ≠ "" && part ≠ "."

def normalPath (path : String) : String :=
  let text := path.toList
  let normal := String.ofList (List.replicate (rootLength text) '/') ++
    "/".intercalate (pathParts text)
  if normal = "" then "." else normal

/-- The last part of a path, up to its end. -/
def fileName (path : String) : List Char :=
  (path.toList.reverse.takeWhile (· ≠ '/')).reverse

/-- What stands behind the last dot of the last part of a path. Dots that this part begins with do
not count. -/
def pathExtension (path : String) : String :=
  let name := (fileName path).dropWhile (· = '.')
  if name.contains '.' then String.ofList (name.reverse.takeWhile (· ≠ '.')).reverse else ""

/-- A path without the dots that it ends with. -/
def dropFinalDots (path : String) : String :=
  String.ofList (path.toList.reverse.dropWhile (· = '.')).reverse

/-! ## Failures -/

inductive FileError where
  | missing (path : String)
  /-- A part of the path that should be a directory is a file. -/
  | notDirectory (path : String)
  | isDirectory (path : String)
  | denied (path : String)
  | tooLong (path : String)
  | nullCharacter
  deriving DecidableEq, Repr

namespace FileError

def message : FileError → String
  | missing path => "[Errno 2] No such file or directory: " ++ quoted path
  | notDirectory path => "[Errno 20] Not a directory: " ++ quoted path
  | isDirectory path => "[Errno 21] Is a directory: " ++ quoted path
  | denied path => "[Errno 13] Permission denied: " ++ quoted path
  | tooLong path => "[Errno 36] File name too long: " ++ quoted path
  | nullCharacter => "embedded null byte"

end FileError

/-- What is written to a file. -/
inductive FileContent where
  | text (s : String)
  | figure (f : Figure)

/-! ## Disks -/

structure Disk where
  files : List (String × List UInt8) := []
  /-- The files that were written, the latest first. -/
  written : List (String × FileContent) := []

namespace Disk

def isFile (d : Disk) (path : String) : Bool :=
  d.files.any (·.1 = path) || d.written.any (·.1 = path)

/-- Whether a path leads to a directory: the working directory, one above it, or one that holds
files. -/
def isDirectory (d : Disk) (path : String) : Bool :=
  path = "." || path = "/" || (pathParts path.toList).all (· = "..") ||
    d.files.any fun file ↦ (path ++ "/").toList.isPrefixOf file.1.toList

/-- How many bytes a name has at most. -/
def maxNameBytes : Nat := 255

/-- How many bytes a path has at most. -/
def maxPathBytes : Nat := 4095

/-- Why some names cannot be followed from a directory on, if they cannot. The last of them may lead
nowhere. -/
def namesObstacle? (d : Disk) (path directory : String) : List String → Option FileError
  | [] => none
  | name :: rest =>
    let place := directory ++ name
    if maxNameBytes < name.utf8ByteSize then some (.tooLong path)
    else if rest.isEmpty then none
    else if d.isFile place then some (.notDirectory path)
    else if d.isDirectory place then namesObstacle? d path (place ++ "/") rest
    else some (.missing path)

/-- Why a path cannot be followed up to its last name, if it cannot. -/
def obstacle? (d : Disk) (path : String) : Option FileError :=
  if path.toList.contains '\x00' then some .nullCharacter
  else if maxPathBytes < path.utf8ByteSize then some (.tooLong path)
  else d.namesObstacle? path "" (pathParts path.toList)

def read (d : Disk) (path : String) : Except FileError (List UInt8) :=
  match d.obstacle? path, d.files.lookup path with
  | some e, _ => .error e
  | none, some bytes => .ok bytes
  | none, none => .error (if d.isDirectory path then .isDirectory path else .missing path)

def write (d : Disk) (path : String) (content : FileContent) : Except FileError Disk :=
  match d.obstacle? path with
  | some e => .error e
  | none =>
    if d.isDirectory path then .error (.isDirectory path)
    else .ok { d with written := (path, content) :: d.written }

end Disk

end Engraving
