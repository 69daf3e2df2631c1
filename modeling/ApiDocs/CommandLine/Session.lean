import ApiDocs.Fault
import ApiDocs.Disk.Basic
/-!
# Sessions

What a command does: it changes a disk, prints on two channels, and ends well or with a failure that
names what was attempted and, below it, the cause.
-/
namespace ApiDocs.CommandLine

/-- Why a command ended before its end. -/
structure Failure where
  text : String
  cause : Option String
  deriving DecidableEq, Repr

/-- The report of a failure; every line of the cause is indented. -/
def Failure.report (f : Failure) : String :=
  "Error: " ++ f.text ++
    (match f.cause with
      | some cause => "\n\nCaused by:\n    " ++ Text.replace "\n" "\n    " cause
      | none => "") ++ "\n"

/-- The state of a session: the disk, and what has been printed on the channel for results and on
that for messages. -/
structure Console where
  disk : Disk
  out : String
  err : String

/-- A part of a session. -/
abbrev Session (α : Type) := ExceptT Failure (StateM Console) α

namespace Session

/-- Prints a line of the result. -/
def print (line : String) : Session Unit :=
  modify fun c => { c with out := c.out ++ line ++ "\n" }

/-- Prints a message. -/
def note (line : String) : Session Unit :=
  modify fun c => { c with err := c.err ++ line ++ "\n" }

def printAll (lines : List String) : Session Unit :=
  lines.forM print

def fail {α : Type} (text : String) : Session α :=
  throw ⟨text, none⟩

/-- The value of an outcome, or a failure that names what was attempted. -/
def expect {α : Type} (attempt : String) : Outcome α → Session α
  | .ok a => pure a
  | .error fault => throw ⟨attempt, some fault.message⟩

/-- Asks the disk. -/
def ask {α : Type} (f : Disk → α) : Session α := do
  return f (← get).disk

/-- Changes the disk. -/
def change {α : Type} (f : Disk → α × Disk) : Session α := do
  let c ← get
  let (a, d) := f c.disk
  set { c with disk := d }
  return a

end Session

end ApiDocs.CommandLine
