import Wiring.CommandLine.Run

/-!
# The program

The command line over the files of the machine it runs on. Everything is decided by
`CommandLine.run`; what is here reads, writes and prints.
-/

namespace Wiring

/-- Why the machine refused a file operation. Some operations give its number negated, in 32
bits. -/
def FileFault.ofError : IO.Error → FileFault
  | .noFileOrDirectory .. => .notFound
  | .alreadyExists .. => .alreadyThere
  | .inappropriateType _ 21 _ => .isFolder
  | .inappropriateType .. => .notFolder
  | .invalidArgument _ 36 _ => .nameTooLong
  | .invalidArgument _ 4294967260 _ => .nameTooLong
  | e => .other (toString e)

/-- The result of an operation on the file at a path, with its failure as a value. -/
def attempt {α : Type} (path : String) (operation : IO α) : IO (Except FileFault α) := do
  if path.toList.any (·.toNat == 0) then return .error .zeroInPath
  try
    return .ok (← operation)
  catch e =>
    return .error (FileFault.ofError e)

/-- The files of the machine. -/
def machineFiles : Files IO where
  read path := attempt path (IO.FS.readFile path)
  isThere path := do
    match ← attempt path (IO.FS.realPath path) with
    | .ok _ => return true
    | .error _ => return false
  isFolder path := do
    match ← attempt path (do (← IO.FS.realPath path).isDir) with
    | .ok found => return found
    | .error _ => return false
  makeFolder path := attempt path (IO.FS.createDir path)
  write path text := attempt path (IO.FS.writeFile path text)

end Wiring

/-- Carry out the command line, print what it says and leave with its exit code. -/
def main (arguments : List String) : IO UInt32 := do
  let outcome ← Wiring.CommandLine.run Wiring.machineFiles arguments
  IO.print outcome.output
  IO.eprint outcome.errors
  return outcome.exitCode.toUInt32
