import Engraving.Files

/-!
# Where runs take place

A run reads and writes files and tells what it does, all of it through a host.
-/

namespace Engraving

/-! ## Log records

What happens in a run is told in records of four levels. A run has a threshold, and records below it
are not told.
-/

/-- How important a record is. -/
inductive LogLevel where
  | debug
  | info
  | warning
  | error
  deriving DecidableEq, Repr

namespace LogLevel

/-- The levels, the least important first. -/
def all : List LogLevel := [debug, info, warning, error]

def name : LogLevel → String
  | debug => "DEBUG"
  | info => "INFO"
  | warning => "WARNING"
  | error => "ERROR"

def ofName? (name : String) : Option LogLevel := all.find? (·.name = name)

def rank : LogLevel → Nat
  | debug => 0
  | info => 1
  | warning => 2
  | error => 3

/-- Whether records of a level are told above a threshold. -/
def passes (threshold level : LogLevel) : Bool := threshold.rank ≤ level.rank

theorem passes_error (threshold : LogLevel) : threshold.passes error = true := by
  cases threshold <;> rfl

end LogLevel

structure LogRecord where
  level : LogLevel
  message : String
  deriving DecidableEq, Repr

def LogRecord.text (r : LogRecord) : String := "[" ++ r.level.name ++ "] " ++ r.message

/-! ## Hosts

A run reads files, writes files and tells what it does. It does so through a `Host`, so that the
same run can take place on a real machine and on a `Workbench`, which is a value.
-/

namespace CommandLine

/-- What a run asks of the place where it takes place. -/
class Host (m : Type → Type) where
  read (path : String) : m (Except FileError (List UInt8))
  write (path : String) (content : FileContent) : m (Except FileError Unit)
  tell (record : LogRecord) : m Unit

instance {ε : Type} {m : Type → Type} [Monad m] [Host m] : Host (ExceptT ε m) where
  read path := ExceptT.lift (Host.read path)
  write path content := ExceptT.lift (Host.write path content)
  tell record := ExceptT.lift (Host.tell record)

/-- A disk, and what was told. -/
structure Workbench where
  disk : Disk
  /-- The records that were told, the latest first. -/
  told : List LogRecord := []

instance : Host (StateM Workbench) where
  read path := do return (← get).disk.read path
  write path content := do
    let w ← get
    match w.disk.write path content with
    | .ok disk => do
      set { w with disk }
      return .ok ()
    | .error e => return .error e
  tell record := modify fun w ↦ { w with told := record :: w.told }

end CommandLine

end Engraving
