import KrlWorkbench.CommandLine

/-!
# The program

Runs the command line on the files of the working directory.
-/

namespace KrlWorkbench

def readErrorOf : IO.Error → ReadError
  | .noFileOrDirectory .. => .notFound
  | .inappropriateType _ code _ => if code == 21 then .isDirectory else .notDirectory
  | _ => .isDirectory

def readSource (file : String) : IO (Except ReadError Text) := do
  match ← (IO.FS.readBinFile file).toBaseIO with
  | .error e => return .error (readErrorOf e)
  | .ok bytes =>
    match String.fromUTF8? bytes with
    | some text => return .ok text.toList
    | none => return .error .notText

def fail (e : CommandError) : IO UInt32 := do
  IO.eprintln s!"Error: {e.message}"
  return 1

end KrlWorkbench

open KrlWorkbench

/-- Checks or formats a file. A session is for an editor to run through the library. -/
def main (args : List String) : IO UInt32 := do
  match Command.ofArguments (args.map (·.toList)) with
  | .error e => fail e
  | .ok .serve =>
    IO.eprintln "expected --check <file> or --format <file>"
    return 1
  | .ok (.run task file) =>
    match ← readSource (String.ofList file) with
    | .error cause => fail (.unreadable file cause)
    | .ok text =>
      IO.print (String.ofList (task.output file text))
      return 0
