import ReactMigration.Conversion.Unit
import ReactMigration.Layout
import ReactMigration.Model.Build
import ReactMigration.Printing.Modules
import ReactMigration.Run.Work

/-!
Converting the units of a run and putting their files together.

Each unit is converted against the sealed index alone, so units do not influence one another.  A
unit that breaks off is replaced by a stub.  Files are merged in the order of units; of two files
with one path the first is kept.
-/

namespace ReactMigration

/-- How a run writes its output. -/
structure RunSettings where
  layout : Layout := {}
  tests : Bool := false
  /-- The major version of the view library, or why it is not known. -/
  reactMajor : Except String Int := .ok 18
  /-- The order in which the run goes through sets of names. -/
  order : NameOrder := .written

/-- A file of the output. -/
structure GeneratedFile where
  path : String
  text : String
  unit : String
  /-- Whether it is a shared module. -/
  support : Bool := false
  deriving Repr, DecidableEq, Inhabited

/-- What one item of a unit came to. -/
structure UnitOutput where
  files : List GeneratedFile := []
  diagnostics : List Diagnostic := []
  deriving Inhabited

namespace WorkItem

/-- The model of an item. -/
def model (index : SymbolIndex) : WorkItem → Noting UnitModel
  | .declaration d => Model.build index d
  | .stub m => return .stub m
  | .types m => return .types m

/-- The generated modules of an item. -/
def artifacts (index : SymbolIndex) (item : WorkItem) (order : NameOrder := .written) :
    Noting (List Artifact) := do
  convertUnit index order (← item.model index)

/-- The stub of an item whose conversion broke off. -/
def failureStub (w : Work) (item : WorkItem) (reason : String) : StubModel :=
  { name := item.name, sourcePath := w.path, unitKind := item.kind?, reason, sourceText := w.text
    inputs := item.inputs, outputs := item.outputs }

end WorkItem

/-- The files of a module: its text, and its test if tests are wanted. -/
def filesOf (settings : RunSettings) (unit : String) (a : Artifact) :
    Except String (List GeneratedFile) := do
  let major ← settings.reactMajor
  let path := settings.layout.pathFor a
  let from_ (path : String) : Printing.Settings :=
    { reactMajor := major, importPath := settings.layout.importPath path }
  match Printing.text (from_ path) settings.layout.typescript a with
  | none => return []
  | some text =>
      let file : GeneratedFile := { path, text, unit, support := a.ref.sourcePath == "" }
      match a with
      | .component c =>
          if settings.tests && !c.wrapper then
            let testPath := settings.layout.testPath c
            return [file, { path := testPath, unit
                            text := Printing.testIn (from_ testPath) settings.layout.typescript c }]
          else return [file]
      | _ => return [file]

/-- The files of modules in order; a module that cannot be written is noted. -/
def filesOfAll (settings : RunSettings) : Sink → List Artifact → List GeneratedFile × Sink
  | sink, [] => ([], sink)
  | sink, a :: as =>
      match filesOf settings sink.unit a with
      | .ok files =>
          let (more, sink) := filesOfAll settings sink as
          (files ++ more, sink)
      | .error message =>
          filesOfAll settings
            (sink.add .error .unitFailure s!"Failed to generate {a.name}: {message}" none none) as

/-- Converts one item of a unit; only the stub that replaces a broken-off conversion can fail. -/
def convertItem (settings : RunSettings) (index : SymbolIndex) (w : Work) (item : WorkItem) :
    Except Fault UnitOutput := do
  let (result, sink) := (item.artifacts index settings.order).run.run { unit := w.path }
  let (artifacts, sink) ←
    match result with
    | .ok artifacts => pure (artifacts, sink)
    | .error f => do
        let sink := sink.add .error .unitFailure
          s!"Unexpected failure while converting {item.name}: {f.message}" none none
        let replacement ← stub index (item.failureStub w s!"Conversion failed: {f.message}")
        pure ([replacement], sink)
  let (files, sink) := filesOfAll settings sink artifacts
  return { files, diagnostics := sink.items }

/-- Converts all items of all units. -/
def convertAll (settings : RunSettings) (index : SymbolIndex) (works : List Work) :
    Except Fault (List (Work × List UnitOutput)) :=
  works.mapM fun w => do return (w, ← w.items.mapM (convertItem settings index w))

/-! ### Merging -/

/-- The files so far by path, and the diagnostics so far. -/
structure Merged where
  files : Table GeneratedFile := []
  diagnostics : List Diagnostic := []
  deriving Inhabited

/-- Adds a file; a path that is taken is noted, unless both files are shared modules. -/
def Merged.addFile (unit : String) (m : Merged) (f : GeneratedFile) : Merged :=
  match m.files.get? f.path with
  | none => { m with files := m.files ++ [(f.path, f)] }
  | some existing =>
      if f.support && existing.support then m
      else
        { m with diagnostics := m.diagnostics ++
            [{ unit, severity := .warning, code := .unsupportedConstruct
               message :=
                 s!"Output path {f.path} is already produced by {existing.unit}; skipped" }] }

/-- Adds what one item came to. -/
def Merged.addOutput (unit : String) (m : Merged) (o : UnitOutput) : Merged :=
  o.files.foldl (Merged.addFile unit) { m with diagnostics := m.diagnostics ++ o.diagnostics }

/-- Adds a unit: its own diagnostics, then its items in order. -/
def Merged.addWork (m : Merged) (entry : Work × List UnitOutput) : Merged :=
  let (w, outputs) := entry
  outputs.foldl (Merged.addOutput w.path) { m with diagnostics := m.diagnostics ++ w.diagnostics }

/-- The files of a run, sorted by path, and its report. -/
def mergeOutputs (entries : List (Work × List UnitOutput)) : Table String × Report :=
  let m := entries.foldl Merged.addWork {}
  ((m.files.mergeSort fun a b => a.1 ≤ b.1).map fun (path, f) => (path, f.text), ⟨m.diagnostics⟩)

/-- Converts the units of a run and merges what they came to. -/
def convertWorks (settings : RunSettings) (works : List Work) :
    Except Fault (Table String × Report) := do
  return mergeOutputs (← convertAll settings (Work.index works) works)

end ReactMigration
