import ActorLogic.Cli.Run
/-!
# The program

Reads the file that the command line names, runs the command, and prints what came of it.
-/

namespace ActorLogic.Cli

/-- A seed from the clock. -/
def clockSeed : IO UInt64 := do
  return max 1 (UInt64.ofNat (← IO.monoNanosNow))

/-- The number of a system error, which may come negated. -/
def errorNumber (code : UInt32) : UInt32 := if code < 0x80000000 then code else 0 - code

/-- Why the system could not read a file. -/
def FileError.ofSystem : IO.Error → FileError
  | .noFileOrDirectory .. => .notFound
  | .inappropriateType _ code _ => if errorNumber code = 21 then .isDirectory else .notDirectory
  | e@(.invalidArgument _ code _) =>
    if errorNumber code = 36 then .nameTooLong else .other (toString e)
  | e => .other (toString e)

/-- The text of a file, or why there is none. -/
def loadFile (path : String) : IO (Except FileError String) := do
  try
    return .ok (← IO.FS.readFile path)
  catch e =>
    return .error (.ofSystem e)

/-- Run a command line on the files of the system. -/
def execute (args : List String) : IO UInt32 := do
  let text ← match (Command.ofArgs? args).bind Command.file? with
    | some path => loadFile path
    | none => pure (.error .notFound)
  let outcome := runArgs args (fun _ => text) (← clockSeed)
  (← IO.getStdout).putStr outcome.output.text
  match outcome.error with
  | some e => (← IO.getStderr).putStrLn ("error: " ++ e.message)
  | none => pure ()
  return UInt32.ofNat outcome.status

end ActorLogic.Cli

def main (args : List String) : IO UInt32 := ActorLogic.Cli.execute args
