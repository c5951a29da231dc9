import ReactMigration.Declaration.Classify
import ReactMigration.Declaration.Reader
import ReactMigration.Model.Basic
import ReactMigration.Report.Diagnostic
import ReactMigration.SymbolIndex

/-!
Reading the source units of a run.  Every unit yields declarations, a copy of its types, or a stub;
what goes wrong in a unit stays in that unit.
-/

namespace ReactMigration

/-- What a source unit yields for conversion. -/
inductive WorkItem where
  | declaration (d : Declaration)
  | stub (m : StubModel)
  | types (m : TypesModel)
  deriving Inhabited

namespace WorkItem

/-- The name of what is converted. -/
def name : WorkItem → String
  | .declaration d => d.name
  | .stub m => m.name
  | .types m => m.name

/-- The kind of unit, if it is known. -/
def kind? : WorkItem → Option UnitKind
  | .declaration d => some d.kind
  | .stub m => m.unitKind
  | .types _ => none

/-- The inputs that are known. -/
def inputs : WorkItem → List InputProp
  | .declaration (.component d) => d.inputs
  | .declaration (.directive d) => d.inputs
  | .stub m => m.inputs
  | _ => []

/-- The outputs that are known. -/
def outputs : WorkItem → List OutputProp
  | .declaration (.component d) => d.outputs
  | .declaration (.directive d) => d.outputs
  | .stub m => m.outputs
  | _ => []

end WorkItem

/-- A source file after reading. -/
structure Work where
  path : String
  text : String := ""
  diagnostics : List Diagnostic := []
  items : List WorkItem := []
  deriving Inhabited

/-- Source texts by path; an unreadable file has none. -/
abbrev Sources := Table (Option String)

/-- Whether a path names a source unit; all other files are resources. -/
def isSourceUnit (path : String) : Bool :=
  path.endsWith ".ts"

namespace Work

/-- A unit that yields nothing but a stub under its file's name. -/
def fileStub (path text reason : String) : WorkItem :=
  .stub { name := Naming.typesModuleName path, sourcePath := path, unitKind := none, reason
          sourceText := text }

/-- The stub of a declaration that cannot be read. -/
def unitStub (u : SourceUnit) (reason : String) : WorkItem :=
  let name := if present u.className then u.className.getD "" else Naming.typesModuleName u.path
  .stub { name, sourcePath := u.path, unitKind := u.kind, reason, sourceText := u.text }

/-- Reads classified units in order; a fault breaks off. -/
def readUnits (resources : Sources) : Work → List SourceUnit → Except (Fault × Work) Work
  | w, [] => .ok w
  | w, u :: us =>
      match Declaration.read resources u with
      | .ok d => readUnits resources { w with items := w.items ++ [.declaration d] } us
      | .error (.finding f) =>
          readUnits resources
            { w with
              diagnostics := w.diagnostics ++ [.ofFinding f w.path]
              items := w.items ++ [unitStub u f.message] } us
      | .error (.fault f) => .error (f, w)

/-- Classifies and reads a file. -/
def readFile (resources : Sources) (w : Work) : Except (Fault × Work) Work :=
  match Declaration.classify w.path w.text with
  | .ok units => readUnits resources w units
  | .error f =>
      let noted := { w with diagnostics := w.diagnostics ++ [.ofFinding f w.path] }
      if f.kind == .unclassified then
        if TypeScript.declaresTypesOnly (TypeScript.parse w.text false) then
          .ok { noted with items := [.types
            { name := Naming.typesModuleName w.path, sourcePath := w.path, text := w.text }] }
        else .ok noted
      else .ok { noted with items := [fileStub w.path w.text f.message] }

/-- An error about a whole unit. -/
def unitFailure (unit message : String) : Diagnostic :=
  { unit, severity := .error, code := .unitFailure, message }

/-- Reads one source file; a fault becomes a diagnostic and a stub. -/
def prepare (resources : Sources) (path : String) : Option String → Work
  | none => { path, diagnostics := [unitFailure path "Source file could not be read"] }
  | some text =>
      match readFile resources { path, text } with
      | .ok w => w
      | .error (f, w) =>
          { w with
            diagnostics := w.diagnostics ++
              [unitFailure path s!"Unexpected failure while parsing: {f.message}"]
            items := [fileStub path text s!"Parsing failed: {f.message}"] }

/-- Reads all source units in order of their paths. -/
def ofSources (sources : Sources) : List Work :=
  let (units, resources) := sources.partition fun (path, _) => isSourceUnit path
  (units.mergeSort fun a b => a.1 ≤ b.1).map fun (path, text) => prepare resources path text

/-- The index of everything the units declare. -/
def index (works : List Work) : SymbolIndex :=
  let items := works.flatMap (·.items)
  SymbolIndex.build
    (items.filterMap fun
      | .declaration d => some d
      | _ => none)
    (items.filterMap fun
      | .types m => some m.sourcePath
      | _ => none)

end Work

end ReactMigration
