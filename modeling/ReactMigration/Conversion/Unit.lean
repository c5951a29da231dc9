import ReactMigration.Conversion.Directive
import ReactMigration.Conversion.Module
import ReactMigration.Conversion.Pipe
import ReactMigration.Conversion.Service

/-!
The generated modules of a unit, one rule for each kind of model.  A unit that cannot be converted
is passed through: its reason and source as a comment, with an export of the name that other units
use.
-/

namespace ReactMigration

open ReactMigration.Text

/-- A reason and a source text as a comment. -/
def commentedSource (reason source : String) : String :=
  let body :=
    if source == "" then []
    else "// Original source:" :: (lines source).map fun line => trimEnd ("// " ++ line)
  unlines (("// " ++ reason) :: body)

/-- The text of a module that only keeps an export. -/
def stubText (m : StubModel) (exported : List String) : String :=
  commentedSource m.reason m.sourceText ++ "\n\n" ++ unlines (exported ++ [""])

/-- The stand-in for a directive. -/
def directiveStub (m : StubModel) (d : DirectiveDecl) (unit : String) : Artifact :=
  let ref := ArtifactRef.directive d.name unit d.directiveKind d.rendersMarkup
  if d.directiveKind == .structural then componentStub m
  else if d.rendersMarkup then
    let name := Naming.directiveWrapperName d.name
    .util { ref, name, raw := some (stubText m
      ["export default function " ++ name ++ "<T>(Wrapped: T): T \x7b", "  return Wrapped;", "\x7d"]) }
  else
    let name := Naming.directiveHookName d.name
    .hook { ref, name, raw := some (stubText m
      ["export function " ++ name ++ "(..._args: unknown[]): void \x7b\x7d"]) }

/-- The stand-in for a service. -/
def serviceStub (m : StubModel) : Artifact :=
  let name := Naming.serviceHookName m.name
  .hook { ref := .service m.name m.sourcePath, name, raw := some (stubText m
    ["export function " ++ name ++ "(): any \x7b", "  return \x7b\x7d;", "\x7d"]) }

/-- The stand-in for a pipe. -/
def pipeStub (m : StubModel) (pipe unit : String) : Artifact :=
  let name := Naming.pipeFunctionName pipe
  .util { ref := .pipeFunction pipe unit, name, raw := some (stubText m
    ["export function " ++ name ++ "(value: any, ..._args: any[]): any \x7b", "  return value;",
     "\x7d"]) }

/-- The stand-in for any other unit: an empty module. -/
def plainStub (m : StubModel) (ref : ArtifactRef) : Artifact :=
  .util { ref, name := ref.name, raw := some (stubText m ["export \x7b\x7d;"]) }

/-- The empty module of a unit with nothing to export. -/
def emptyStub (m : StubModel) : Artifact :=
  plainStub m
    { category := .utils, name := Naming.typesModuleName m.sourcePath, sourcePath := m.sourcePath }

/-- The stand-in for a unit that could not be converted. -/
def stub (index : SymbolIndex) (m : StubModel) : Except Fault Artifact := do
  match m.unitKind, index.lookup m.name with
  | some .component, _ => return componentStub m
  | some .directive, some symbol =>
      return directiveStub m (← symbol.declaration.asDirective) symbol.unit
  | some .service, _ => return serviceStub m
  | some .pipe, some symbol =>
      match symbol.declaration with
      | .pipe d => return pipeStub m d.pipeName symbol.unit
      | d => throw (.lacksProperty d.recordName "pipe_name")
  | some .module, _ => return plainStub m (.context m.name m.sourcePath)
  | _, _ => return emptyStub m

/-- A unit of types, copied. -/
def convertTypes (m : TypesModel) : Artifact :=
  .util { ref := .types m.sourcePath, name := Naming.typesModuleName m.sourcePath
          raw := some m.text, typedOnly := true }

/-- The unit's own modules. -/
def convertOwn (index : SymbolIndex) (order : NameOrder) : UnitModel → Noting (List Artifact)
  | .component m => convertComponent index order m
  | .service m => convertService index order m
  | .pipe m => convertPipe index m
  | .directive m => convertDirective index order m
  | .module m => convertModule index m
  | .routeTable m => convertRouteTable index m
  | .stub m => do return [← Noting.lift (stub index m)]
  | .types m => return [convertTypes m]

/-- The modules of a unit, followed by the shared modules that they import. -/
def convertUnit (index : SymbolIndex) (order : NameOrder) (m : UnitModel) :
    Noting (List Artifact) := do
  let own ← convertOwn index order m
  return own ++ (Support.importedBy (own.flatMap (·.imports))).filterMap Support.find?

end ReactMigration
