import FrozenDefaults.Program

/-!
# Command line

The program on the file system and the standard streams of the machine.
-/

namespace FrozenDefaults

/-- What a command needs, taken from the machine it runs on. -/
def machine : Host IO where
  read path := do
    try return some (← IO.FS.readFile path)
    catch _ => return none
  makeFolders path := do
    try
      IO.FS.createDirAll path
      return true
    catch _ => return false
  write path text := do
    try
      IO.FS.writeFile path text
      return true
    catch _ => return false
  out text := do
    (← IO.getStdout).putStr text
  err text := do
    (← IO.getStderr).putStr text

end FrozenDefaults

def main (words : List String) : IO UInt32 := do
  return (← FrozenDefaults.Program.run FrozenDefaults.machine words).exitCode
