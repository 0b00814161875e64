import CodeFrames.Command.Run

/-!
The command line program: it reads the files that a run can ask for, runs, and prints.
-/

namespace CodeFrames.Main

/-- The code of an error is the system's number of it, with either sign. -/
def hasNumber (code number : UInt32) : Bool := code = number || code = 0 - number

def readFault : IO.Error → ReadFault
  | .noFileOrDirectory _ _ _ => .missing
  | .inappropriateType _ code _ => if hasNumber code 21 then .isDirectory else .notDirectory
  | .invalidArgument name code details =>
      if hasNumber code 36 then .nameTooLong
      else .other (toString (IO.Error.invalidArgument name code details))
  | e => .other (toString e)

def readFile (name : Text) : IO (Except ReadFault Text) := do
  try
    return Disk.decode (← IO.FS.readBinFile (String.ofList name))
  catch e => return .error (readFault e)

def readDisk (names : List Text) : IO Disk := do
  let files ← names.mapM fun name => return (name, ← readFile name)
  return fun name => (files.lookup name).getD (.error .missing)

def outcome (arguments : List Text) : IO Command.Outcome := do
  match Command.parseArguments arguments with
  | .error e => return Command.stop e
  | .ok i => return Command.run (← readDisk (Command.names i)) i

end CodeFrames.Main

def main (arguments : List String) : IO UInt32 := do
  let outcome ← CodeFrames.Main.outcome (arguments.map String.toList)
  (← IO.getStdout).putStr (String.ofList outcome.output)
  (← IO.getStderr).putStr (String.ofList outcome.errors)
  return outcome.code.toUInt32
