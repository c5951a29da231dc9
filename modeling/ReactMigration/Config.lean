import ReactMigration.Fault
import ReactMigration.Json.Literal
import ReactMigration.Json.Parser
import ReactMigration.Table
import ReactMigration.Text.Pattern

/-!
The configuration of a run.  Options hold whatever value they were given; `validate` checks them
before a run, in a fixed order.
-/

namespace ReactMigration

open ReactMigration.Text

/-- What is wrong with a configuration. -/
inductive ConfigError where
  | unknownOption (key : String)
  | unreadableFile (path : String)
  | notJson (path : String)
  | notObject (path : String)
  | badVersion (shown : String)
  | noSource (shown : String)
  | noOutput
  | badWorkers (shown : String)
  | notBoolean (option : String)
  deriving Repr, DecidableEq, Inhabited

/-- The text of a configuration error. -/
def ConfigError.message : ConfigError → String
  | .unknownOption key => s!"Unknown configuration option '{key}'"
  | .unreadableFile path => s!"Could not read configuration file {path}"
  | .notJson path => s!"Configuration file {path} is not valid JSON"
  | .notObject path => s!"Configuration file {path} must contain a JSON object"
  | .badVersion shown => s!"Unparsable reactVersion '{shown}'"
  | .noSource shown => s!"Source directory '{shown}' does not exist"
  | .noOutput => "An output directory is required unless dryRun is set"
  | .badWorkers shown => s!"maxWorkers must be a positive integer, got {shown}"
  | .notBoolean option => s!"Option '{option}' must be a boolean"

/-- Why a run was not started. -/
inductive RunError where
  | config (e : ConfigError)
  /-- There is nothing to convert. -/
  | noUnits
  /-- No unit can be read. -/
  | noneReadable
  | fault (f : Fault)
  deriving Repr, DecidableEq, Inhabited

/-- The text of a run error. -/
def RunError.message : RunError → String
  | .config e => e.message
  | .noUnits => "The input set contains no TypeScript source units"
  | .noneReadable => "None of the source units could be read"
  | .fault f => f.message

/-- The options of a run, as given. -/
structure Config where
  sourceDir : Json := .str ""
  outputDir : Json := .str ""
  useTypeScript : Json := .bool true
  generateTests : Json := .bool false
  preserveStructure : Json := .bool false
  reactVersion : Json := .str "18"
  dryRun : Json := .bool false
  maxWorkers : Json := .null
  deriving Inhabited

namespace Config

/-- Other names of options. -/
def aliases : Table String :=
  [("sourceDir", "source_dir"), ("outputDir", "output_dir"), ("useTypeScript", "use_typescript"),
   ("generateTests", "generate_tests"), ("preserveStructure", "preserve_structure"),
   ("reactVersion", "react_version"), ("dryRun", "dry_run"), ("maxWorkers", "max_workers")]

/-- The options with their values. -/
def entries (c : Config) : Table Json :=
  [("source_dir", c.sourceDir), ("output_dir", c.outputDir), ("use_typescript", c.useTypeScript),
   ("generate_tests", c.generateTests), ("preserve_structure", c.preserveStructure),
   ("react_version", c.reactVersion), ("dry_run", c.dryRun), ("max_workers", c.maxWorkers)]

/-- Sets an option by its name. -/
def set? (c : Config) (name : String) (value : Json) : Option Config :=
  match name with
  | "source_dir" => some { c with sourceDir := value }
  | "output_dir" => some { c with outputDir := value }
  | "use_typescript" => some { c with useTypeScript := value }
  | "generate_tests" => some { c with generateTests := value }
  | "preserve_structure" => some { c with preserveStructure := value }
  | "react_version" => some { c with reactVersion := value }
  | "dry_run" => some { c with dryRun := value }
  | "max_workers" => some { c with maxWorkers := value }
  | _ => none

/-- Sets an option by its name or its other name. -/
def setOption (c : Config) (entry : String × Json) : Except ConfigError Config :=
  let (key, value) := entry
  match c.set? ((aliases.get? key).getD key) value with
  | some c => .ok c
  | none => .error (.unknownOption key)

/-- The configuration that options give; a later one wins. -/
def ofEntries (data : Table Json) : Except ConfigError Config :=
  data.foldlM setOption {}

/-- The configuration in the text of a file, nothing standing for an unreadable one. -/
def ofFile (path : String) : Option String → Except ConfigError Config
  | none => .error (.unreadableFile path)
  | some text =>
      match Json.parse? text with
      | none => .error (.notJson path)
      | some (.obj members) => ofEntries (Table.ofEntries members)
      | some _ => .error (.notObject path)

/-- The configuration with further options, those without a value left out; options under their
other names come last. -/
def merged (c : Config) (overrides : Table Json) : Except ConfigError Config :=
  let given := overrides.filter fun (_, v) => !v.isNull
  let (plain, other) := given.partition fun (k, _) => c.entries.has k
  (plain ++ other).foldlM setOption c

/-- A version: the major number, further numbers, and an open end. -/
def versionPattern : Pattern :=
  .first ++ .opt (.text "^") ++ .opt (.text "~") ++ .group 1 (.many isDecimal 1 true) ++
    .star (.text "." ++ .many isDecimal 1 true) ++ .opt (.text ".x") ++ .last

/-- The major version of the view library. -/
def reactMajor (c : Config) : Except ConfigError Int :=
  match versionPattern.lead? (trim c.reactVersion.text) with
  | some m => .ok (decimalNumber (m.group 1).toList)
  | none => .error (.badVersion c.reactVersion.text)

/-- The source directory as a path; a number names no directory. -/
def sourcePath (c : Config) : Except Fault String :=
  match c.sourceDir with
  | .str s => .ok s
  | .float x => if x == 0.0 then .ok "" else .error (.notPath "float")
  | .arr items => if items.isEmpty then .ok "" else .error (.notPath "list")
  | .obj members => if members.isEmpty then .ok "" else .error (.notPath "dict")
  | _ => .ok ""

/-- Whether the number of workers is a positive integer, true counting as one. -/
def workersOk : Json → Bool
  | .null => true
  | .int n => 1 ≤ n
  | .bool b => b
  | _ => false

/-- Checks the options; `sourceExists` tells whether the source directory is there, if one is
needed. -/
def validate (c : Config) (sourceExists : Option Bool) : Except ConfigError Unit := do
  if sourceExists == some false then throw (.noSource c.sourceDir.text)
  if !c.dryRun.isSet && !c.outputDir.isSet then throw .noOutput
  if !workersOk c.maxWorkers then throw (.badWorkers c.maxWorkers.literal)
  let flags := [("use_typescript", c.useTypeScript), ("generate_tests", c.generateTests),
    ("preserve_structure", c.preserveStructure), ("dry_run", c.dryRun)]
  match flags.find? fun (_, v) => !v.isBool with
  | some (name, _) => throw (.notBoolean name)
  | none => pure ()
  let _ ← c.reactMajor
  return ()

end Config

end ReactMigration
