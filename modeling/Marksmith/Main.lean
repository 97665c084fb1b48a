import Marksmith.CommandLine.Run

/-!
The program: runs a command over the file system.
-/

open Marksmith.CommandLine

/-- The error of the system as a disk error. -/
def Marksmith.CommandLine.DiskError.ofSystem (e : IO.Error) : DiskError := .other (toString e)

/-- The file system as a disk. A file that cannot be read has no text. -/
def Marksmith.CommandLine.Disk.system : Disk IO where
  read path := do
    try return some (← IO.FS.readFile path)
    catch _ => return none
  makeDir path := do
    try
      IO.FS.createDirAll path
      return .ok ()
    catch e => return .error (.ofSystem e)
  write path text := do
    try
      IO.FS.writeFile path text
      return .ok ()
    catch e => return .error (.ofSystem e)

def main (args : List String) : IO UInt32 := do
  let outcome ← run Disk.system args
  IO.print outcome.stdout
  IO.eprint outcome.stderr
  return outcome.exitCode.toUInt32
