import ActorLogic.Config
import ActorLogic.Ctl.Token
import ActorLogic.Graph.Basic
import ActorLogic.Memory
import ActorLogic.World.Fault
/-!
# Errors of a command

Each error has a text for the standard error output and a status with which the command exits: 2 for
an error that the user can mend, 101 for a fault on which a computation stopped.
-/

namespace ActorLogic.Cli

/-- Why a file cannot be read. -/
inductive FileError where
  | notFound
  /-- A part of the path leads through a file. -/
  | notDirectory
  | isDirectory
  /-- The path, or a name in it, is longer than the file system allows. -/
  | nameTooLong
  | other (reason : String)
  deriving DecidableEq, Repr

def FileError.message : FileError → String
  | .notFound => "No such file or directory (os error 2)"
  | .notDirectory => "Not a directory (os error 20)"
  | .isDirectory => "Is a directory (os error 21)"
  | .nameTooLong => "File name too long (os error 36)"
  | .other reason => reason

/-- The texts of files by name. -/
abbrev Files := String → Except FileError String

inductive CliError where
  /-- The command line is malformed. -/
  | usage
  | unreadable (path : String) (e : FileError)
  /-- The text of a file is no JSON, or its value has the wrong shape. -/
  | malformed (path : String)
  /-- The graph in a file does not hang together. -/
  | badGraph (path : String) (e : GraphError)
  | badFormula (text : String) (e : SyntaxError)
  | badWorld (e : WorldError)
  | missingFormula
  | zeroCapacity
  /-- An evaluation stopped. -/
  | graphFault (f : GraphFault)
  /-- A simulation stopped. -/
  | runFault (f : RunFault)
  /-- There was no room for a channel, or for the states of a graph. -/
  | memoryFault (f : MemoryFault)
  deriving DecidableEq, Repr

/-! ## Positions in messages -/

/-- The digits that a text begins with, as a number of 64 bits, and what follows them. -/
def leadingNumber? (cs : List Char) : Option (Nat × List Char) :=
  let ds := cs.takeWhile Char.isDigit
  let n := ds.foldl (fun n c => 10 * n + (c.toNat - '0'.toNat)) 0
  if ds ≠ [] ∧ n < 1 <<< 64 then some (n, cs.dropWhile Char.isDigit) else none

/-- What follows the word, if the text begins with it. -/
def behind? : List Char → List Char → Option (List Char)
  | [], cs => some cs
  | w :: word, c :: cs => if w = c then behind? word cs else none
  | _ :: _, [] => none

/-- A line and a column, if they are all that the text says. -/
def position? (cs : List Char) : Option (Nat × Nat) := do
  let cs ← behind? " at line ".toList cs
  let (line, cs) ← leadingNumber? cs
  let cs ← behind? " column ".toList cs
  match ← leadingNumber? cs with
  | (column, []) => some (line, column)
  | _ => none

/-- A text without the position at its end, and that position. -/
def splitPosition? : List Char → Option (List Char × Nat × Nat)
  | [] => none
  | c :: cs =>
    match splitPosition? cs with
    | some (text, found) => some (c :: text, found)
    | none => (position? (c :: cs)).map ([], ·)

/-- The text of an error in a file. A position at its end is written anew, and left out if it is on
line zero. -/
def withPosition (s : String) : String :=
  match splitPosition? s.toList with
  | none => s
  | some (text, line, column) =>
    String.ofList text
      ++ if line = 0 then "" else " at line " ++ toString line ++ " column " ++ toString column

/-! ## Texts -/

/-- How the program is called. -/
def usageText : String :=
  "usage: simulate [-m MODEL] [-s SEED] [--steps N] [-c FILE] [--messages N] [--capacity N]"
    ++ " [--json]\n"
    ++ "       check [-m MODEL] [--capacity N] [-g FILE] [-f FORMULA]... [--json]"

/-- The text of an error. -/
def CliError.message : CliError → String
  | .usage => usageText
  | .unreadable path e => "Failed to read " ++ path ++ ": " ++ e.message
  | .malformed path => "Invalid JSON in " ++ path
  | .badGraph path e => "Invalid JSON in " ++ path ++ ": " ++ withPosition e.message
  | .badFormula text e => "Invalid formula " ++ quotedText text ++ ": " ++ e.message
  | .badWorld e => e.message
  | .missingFormula => "--graph requires at least one --formula"
  | .zeroCapacity => "Bounded-buffer capacity must be positive"
  | .graphFault f => f.message
  | .runFault f => f.message
  | .memoryFault f => f.message

/-- The status with which the command exits. -/
def CliError.status : CliError → Nat
  | .graphFault _ | .runFault _ | .memoryFault _ => 101
  | _ => 2

/-- The text of a file. -/
def readFile (files : Files) (path : String) : Except CliError String :=
  (files path).mapError (.unreadable path)

end ActorLogic.Cli
