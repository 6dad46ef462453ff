import PocketLisp.Command

/-!
# The program

Reads the settings and the file, runs the command, writes what it leaves behind.
-/

namespace PocketLisp

/-- The content of a file, or why it cannot be read. A path that goes on behind a file cannot be
opened; a directory can, and then refuses to be read. -/
def readContent (name : String) : IO (Except Command.FileFault (List UInt8)) := do
  try
    return .ok (← IO.FS.readBinFile name).toList
  catch e =>
    match e with
    | .inappropriateType (some _) .. => return .error .notDirectory
    | .inappropriateType none .. => return .error .isDirectory
    | .invalidArgument .. => return .error .nameTooLong
    | _ => return .error .missing

/-- Writes what a command leaves behind and gives its exit code. -/
def conclude (finish : Command.Finish) : IO UInt32 := do
  IO.print finish.stdout
  IO.eprint finish.stderr
  match finish.ending with
  | .exit code => return code.toUInt32
  | .crash f =>
    IO.eprintln (f.kind.label ++ ": " ++ f.message)
    return 1

/-- The command line. -/
def runCommand (arguments : List String) : IO UInt32 := do
  let setup : Command.Setup :=
    { arguments := arguments
      level := ← IO.getEnv levelVariable
      depth := ← IO.getEnv depthVariable }
  match Command.prepare setup with
  | .error finish => conclude finish
  | .ok job =>
    match job.finish ampleFuel (← readContent job.file) with
    | some finish => conclude finish
    | none => return 1

end PocketLisp

def main (arguments : List String) : IO UInt32 := PocketLisp.runCommand arguments
