import ReactMigration.CommandLine

/-!
The program: the command line over the files of the machine it runs on.
-/

namespace ReactMigration.Machine

/-- The files below a directory, by their paths from there. -/
partial def filesBelow (dir : String) : IO (List String) := do
  let entries ← ((← IO.currentDir) / dir).readDir
  let found ← entries.toList.mapM fun entry => do
    if ← entry.path.isDir then
      return (← filesBelow (Path.join dir entry.fileName)).map (Path.join entry.fileName)
    else return [entry.fileName]
  return found.flatten

/-- The text of a file, nothing if it cannot be read or is not UTF-8. -/
def read (path : String) : IO (Option String) := do
  try return textOfBytes (← IO.FS.readBinFile path).toList
  catch _ => return none

/-- Writes a file and the folders above it. -/
def write (path text : String) : IO Bool := do
  try
    let folder := Path.directory path
    if folder != "" then IO.FS.createDirAll folder
    IO.FS.writeFile path text
    return true
  catch _ => return false

/-- The files of the machine. -/
def files : FileSystem IO where
  isDirectory path := do
    if path == "" then return false
    ((← IO.currentDir) / path).isDir
  read := read
  filesBelow dir := do
    try filesBelow dir
    catch _ => return []
  write := write

end ReactMigration.Machine

/-- Runs the command line and exits with its status. -/
def main (args : List String) : IO UInt32 := do
  match ← ReactMigration.CommandLine.execute ReactMigration.Machine.files args with
  | .ok outcome =>
      IO.print outcome.stdout
      IO.eprint outcome.stderr
      return outcome.exit.toUInt32
  | .error fault => throw (IO.userError fault.message)
