import ReactMigration.Target.Artifact
import ReactMigration.Text.Path

/-!
Where generated modules live: paths below the folder of their kind, and how one module names
another.
-/

namespace ReactMigration

/-- How output files are laid out. -/
structure Layout where
  typescript : Bool := true
  /-- Whether source folders are kept below the folder of a kind. -/
  preserveStructure : Bool := false
  deriving Repr, DecidableEq, Inhabited

namespace Layout

/-- The folder of a module. -/
def folder (l : Layout) (ref : ArtifactRef) : String :=
  let source := Path.directory ref.sourcePath
  if l.preserveStructure && source != "" then Path.join ref.category.label source
  else ref.category.label

/-- The path of a module without the ending that the language decides. -/
def modulePath (l : Layout) (ref : ArtifactRef) : String :=
  Path.join (l.folder ref) ref.name ++ ref.extension.getD ""

/-- The ending of a module's file. -/
def ending (l : Layout) : Artifact → String
  | .style _ => ""
  | .hook _ => if l.typescript then ".ts" else ".js"
  | .util _ => if l.typescript then ".ts" else ".js"
  | _ => if l.typescript then ".tsx" else ".jsx"

/-- The path of a module's file. -/
def pathFor (l : Layout) (a : Artifact) : String :=
  l.modulePath a.ref ++ l.ending a

/-- The path of a component's test. -/
def testPath (l : Layout) (a : ComponentArtifact) : String :=
  Path.join (Path.join (l.folder a.ref) "__tests__")
    (a.name ++ ".test" ++ if l.typescript then ".tsx" else ".jsx")

/-- How the module at a path names another one. -/
def importPath (l : Layout) (origin : String) (target : ArtifactRef) : String :=
  let relative := Path.relative (l.modulePath target) (Path.directory origin)
  if relative.startsWith "../" then relative else "./" ++ relative

end Layout

end ReactMigration
