import ReactMigration.Config
import ReactMigration.FileTree
import ReactMigration.Run.Output

/-!
A whole run: gather the sources, convert them, and write the files unless it is a dry run.
-/

namespace ReactMigration

open ReactMigration.Text

/-! ### Gathering sources -/

/-- Folders that hold no sources. -/
def skippedFolders : List String :=
  ["node_modules", "dist", ".angular", ".git"]

/-- Whether a file belongs to the input of a run: a unit, a template or a stylesheet, but no test
and no declaration file. -/
def isSourceFile (name : String) : Bool :=
  !name.endsWith ".spec.ts" && !name.endsWith ".d.ts" &&
    [".ts", ".html", ".css", ".scss"].any (name.endsWith ·)

/-- Whether a path below the source directory is gathered. -/
def isGathered (path : String) : Bool :=
  let parts := splitAt '/' path
  parts.dropLast.all (!skippedFolders.contains ·) && isSourceFile (parts.getLast?.getD "")

/-- The text of a file with plain line breaks. -/
def readText {m : Type → Type} [Monad m] (fs : FileSystem m) (path : String) :
    m (Option String) := do
  return (← fs.read path).map fun text => String.ofList (plainBreaks text.toList)

/-- Gathers the sources below a directory in order of their paths. -/
def collectSources {m : Type → Type} [Monad m] (fs : FileSystem m) (dir : String) : m Sources := do
  let paths := ((← fs.filesBelow dir).filter isGathered).mergeSort (· ≤ ·)
  paths.mapM fun path => do return (path, ← readText fs (Path.join dir path))

/-! ### Running -/

/-- How a configuration has output written. -/
def Config.runSettings (c : Config) (order : NameOrder := .written) : RunSettings where
  layout := { typescript := c.useTypeScript.isSet, preserveStructure := c.preserveStructure.isSet }
  tests := c.generateTests.isSet
  reactMajor := c.reactMajor.mapError ConfigError.message
  order

/-- What a run came to. -/
structure RunResult where
  files : Table String := []
  report : Report := {}
  written : List String := []
  deriving Inhabited

/-- Converts sources without writing anything. -/
def migrate (c : Config) (sources : Sources) (order : NameOrder := .written) :
    Except RunError (Table String × Report) := do
  (c.validate none).mapError .config
  let units := sources.filter fun (path, _) => isSourceUnit path
  if units.isEmpty then throw .noUnits
  if units.all fun (_, text) => text.isNone then throw .noneReadable
  (convertWorks (c.runSettings order) (Work.ofSources sources)).mapError .fault

/-- Writes files in order; those that cannot be written are reported. -/
def writeFiles {m : Type → Type} [Monad m] (fs : FileSystem m) (dir : String) :
    Table String → m (List String × List Diagnostic)
  | [] => return ([], [])
  | (path, text) :: rest => do
      let done ← fs.write ((splitAt '/' path).foldl Path.join dir) text
      let (written, failures) ← writeFiles fs dir rest
      if done then return (path :: written, failures)
      else return (written, Work.unitFailure path "Could not write output file" :: failures)

/-- Converts sources and writes the files, unless it is a dry run. -/
def migrateSources {m : Type → Type} [Monad m] (fs : FileSystem m) (c : Config)
    (sources : Sources) (order : NameOrder := .written) : m (Except RunError RunResult) := do
  match migrate c sources order with
  | .error e => return .error e
  | .ok (files, report) =>
      if c.dryRun.isSet then return .ok { files, report, written := files.map (·.1) }
      let (written, failures) ← writeFiles fs c.outputDir.text files
      return .ok { files, report := ⟨report.diagnostics ++ failures⟩, written }

/-- Checks the configuration with its source directory. -/
def checkConfig {m : Type → Type} [Monad m] (fs : FileSystem m) (c : Config)
    (requireSource : Bool) : m (Except RunError Unit) := do
  if !requireSource then return (c.validate none).mapError .config
  match c.sourcePath with
  | .error f => return .error (.fault f)
  | .ok path => return (c.validate (some (← fs.isDirectory path))).mapError .config

/-- Runs a configuration over its source directory. -/
def run {m : Type → Type} [Monad m] (fs : FileSystem m) (c : Config) (order : NameOrder := .written) :
    m (Except RunError RunResult) := do
  match ← checkConfig fs c true with
  | .error e => return .error e
  | .ok () => migrateSources fs c (← collectSources fs c.sourceDir.text) order

end ReactMigration
