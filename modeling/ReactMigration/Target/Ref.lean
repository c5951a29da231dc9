import ReactMigration.Naming
import ReactMigration.SymbolIndex

/-!
References to generated modules: the folder, the module name and the unit a module comes from.  An
importer and the producer of a module compute the same reference from the same declaration.
-/

namespace ReactMigration

/-- The folder of a generated module. -/
inductive Category where
  | components
  | hooks
  | services
  | utils
  | contexts
  | pages
  | types
  | styles
  deriving Repr, DecidableEq, Inhabited

/-- The name of a folder. -/
def Category.label : Category → String
  | .components => "components"
  | .hooks => "hooks"
  | .services => "services"
  | .utils => "utils"
  | .contexts => "contexts"
  | .pages => "pages"
  | .types => "types"
  | .styles => "styles"

/-- All folders. -/
def Category.all : List Category :=
  [.components, .hooks, .services, .utils, .contexts, .pages, .types, .styles]

/-- Where a generated module lives; a shared module comes from no unit. -/
structure ArtifactRef where
  category : Category
  name : String
  sourcePath : String := ""
  /-- A fixed ending; without one the output language decides. -/
  extension : Option String := none
  deriving Repr, DecidableEq, Inhabited

namespace ArtifactRef

/-- The component of a class. -/
def component (className sourcePath : String) : ArtifactRef :=
  { category := .components, name := Naming.componentName className, sourcePath }

/-- The hook of a service. -/
def service (className sourcePath : String) : ArtifactRef :=
  { category := .services, name := Naming.serviceHookName className, sourcePath }

/-- The function of a pipe. -/
def pipeFunction (pipe sourcePath : String) : ArtifactRef :=
  { category := .utils, name := Naming.pipeFunctionName pipe, sourcePath }

/-- The hook of a pipe. -/
def pipeHook (pipe sourcePath : String) : ArtifactRef :=
  { category := .hooks, name := Naming.pipeHookName pipe, sourcePath }

/-- A directive is a component if it is structural, a wrapper if it renders markup, and a hook
otherwise. -/
def directive (className sourcePath : String) (kind : DirectiveKind) (rendersMarkup : Bool) :
    ArtifactRef :=
  if kind == .structural then
    { category := .components, name := Naming.componentName className, sourcePath }
  else if rendersMarkup then
    { category := .components, name := Naming.directiveWrapperName className, sourcePath }
  else { category := .hooks, name := Naming.directiveHookName className, sourcePath }

/-- The context of a module. -/
def context (className sourcePath : String) : ArtifactRef :=
  { category := .contexts, name := (Naming.contextNames className).1, sourcePath }

/-- A table of routes. -/
def routes (base sourcePath : String) : ArtifactRef :=
  { category := .pages, name := (Naming.routesNames base).1, sourcePath }

/-- The copy of the types of a unit. -/
def types (sourcePath : String) : ArtifactRef :=
  { category := .types, name := Naming.typesModuleName sourcePath, sourcePath }

/-- The stylesheet of a component. -/
def style (className sourcePath : String) : ArtifactRef :=
  { category := .styles, name := Naming.componentName className, sourcePath
    extension := some ".css" }

/-- The main module of an indexed declaration. -/
def ofSymbol (s : Symbol) : Option ArtifactRef :=
  match s.declaration with
  | .component _ => some (component s.name s.unit)
  | .service _ => some (service s.name s.unit)
  | .pipe d => some (pipeFunction d.pipeName s.unit)
  | .directive d => some (directive s.name s.unit d.directiveKind d.rendersMarkup)
  | .module _ => some (context s.name s.unit)
  | .routes _ => none

end ArtifactRef

end ReactMigration
