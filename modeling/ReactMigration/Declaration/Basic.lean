import ReactMigration.Declaration.Metadata
import ReactMigration.Report.Finding
import ReactMigration.Template.Node

/-!
Declarations of a source unit: components, services, pipes, directives, modules and tables of
routes.
-/

namespace ReactMigration

/-- What a unit declares. -/
inductive UnitKind where
  | component
  | service
  | pipe
  | directive
  | module
  | routes
  deriving Repr, DecidableEq, Inhabited

/-- The name of a kind. -/
def UnitKind.label : UnitKind → String
  | .component => "component"
  | .service => "service"
  | .pipe => "pipe"
  | .directive => "directive"
  | .module => "module"
  | .routes => "routes"

/-- A source file with the kind of declaration and the class it was classified by. -/
structure SourceUnit where
  path : String
  text : String
  kind : Option UnitKind := none
  className : Option String := none
  deriving Inhabited

/-! ### Class members -/

/-- A parameter of a method or function. -/
structure Param where
  name : String
  type : Option String := none
  optional : Bool := false
  default : Option String := none
  deriving Repr, DecidableEq, Inhabited

/-- Whether an optional text is present and not empty. -/
def present (s : Option String) : Bool :=
  s.getD "" != ""

/-- The parameter as it is written in a parameter list. -/
def Param.signature (p : Param) (typed : Bool) : String :=
  let clause :=
    if typed && present p.type then
      (if p.optional && !present p.default then "?" else "") ++ ": " ++ p.type.getD ""
    else ""
  let default := if present p.default then " = " ++ p.default.getD "" else ""
  p.name ++ clause ++ default

/-- A statement of a method body, with the kind of its syntax node. -/
structure Statement where
  kind : String
  text : String
  deriving Repr, DecidableEq, Inhabited

/-- A decorator with evaluated arguments. -/
structure DecoratorInfo where
  name : String
  args : List Metadata := []
  text : String := ""
  deriving Inhabited

/-- The two kinds of accessor. -/
inductive Accessor where
  | get
  | set
  deriving Repr, DecidableEq, Inhabited

/-- Who may use a member. -/
inductive Visibility where
  | anywhere
  | classOnly
  | subclasses
  deriving Repr, DecidableEq, Inhabited

/-- A method, accessor or constructor. -/
structure MethodDecl where
  name : String
  params : List Param := []
  returnType : Option String := none
  body : String := ""
  statements : List Statement := []
  isAsync : Bool := false
  accessor : Option Accessor := none
  decorators : List DecoratorInfo := []
  visibility : Visibility := .anywhere
  line : Int := 0
  deriving Inhabited

/-- Whether a method answers later: it is asynchronous or returns a promise. -/
def MethodDecl.isAsynchronous (m : MethodDecl) : Bool :=
  m.isAsync || (m.returnType.getD "").startsWith "Promise"

/-- A field. -/
structure FieldDecl where
  name : String
  type : Option String := none
  initializer : Option String := none
  decorators : List DecoratorInfo := []
  readonly : Bool := false
  static : Bool := false
  visibility : Visibility := .anywhere
  line : Int := 0
  deriving Inhabited

/-- A value a component or directive receives. -/
structure InputProp where
  name : String
  type : String := "any"
  optional : Bool := false
  outerName : Option String := none
  default : Option String := none
  isSetter : Bool := false
  deriving Repr, DecidableEq, Inhabited

/-- The outer name if there is one, the name otherwise. -/
def publicName (name : String) (outerName : Option String) : String :=
  if present outerName then outerName.getD "" else name

/-- The name under which an input is bound from outside. -/
def InputProp.publicName (p : InputProp) : String :=
  ReactMigration.publicName p.name p.outerName

/-- An event a component or directive emits. -/
structure OutputProp where
  name : String
  payloadType : String := "void"
  outerName : Option String := none
  deriving Repr, DecidableEq, Inhabited

/-- The name under which an output is bound from outside. -/
def OutputProp.publicName (p : OutputProp) : String :=
  ReactMigration.publicName p.name p.outerName

/-- Something a class asks to be given. -/
structure Dependency where
  name : String
  typeName : String
  optional : Bool := false
  token : Option String := none
  deriving Repr, DecidableEq, Inhabited

/-- A method called when the host element receives an event. -/
structure HostListener where
  event : String
  handler : String
  args : List String := []
  deriving Repr, DecidableEq, Inhabited

/-- A member bound to a property of the host element. -/
structure HostBinding where
  target : String
  member : String
  deriving Repr, DecidableEq, Inhabited

/-- An import of a source unit. -/
structure ImportDecl where
  module : String
  names : List String := []
  default : Option String := none
  whole : Option String := none
  deriving Repr, DecidableEq, Inhabited

/-! ### Declarations -/

/-- What every declaration has. -/
structure DeclBase where
  name : String
  sourcePath : String
  dependencies : List Dependency := []
  methods : List MethodDecl := []
  fields : List FieldDecl := []
  lifecycleHooks : List String := []
  sourceImports : List ImportDecl := []
  deriving Inhabited

/-- The first method of a name. -/
def DeclBase.method? (d : DeclBase) (name : String) : Option MethodDecl :=
  d.methods.find? (·.name == name)

/-- A component class. -/
structure ComponentDecl extends DeclBase where
  selector : Option String := none
  inputs : List InputProp := []
  outputs : List OutputProp := []
  template : Option String := none
  templateUrl : Option String := none
  templateNodes : List Template.Node := []
  templateError : Option Finding := none
  styles : List String := []
  styleUrls : List String := []
  missingResources : List String := []
  hostListeners : List HostListener := []
  standalone : Bool := false
  deriving Inhabited

/-- A service class. -/
structure ServiceDecl extends DeclBase where
  providedIn : Option String := none
  deriving Inhabited

/-- A pipe class. -/
structure PipeDecl extends DeclBase where
  pipeName : String := ""
  pure : Bool := true
  transform : Option MethodDecl := none
  deriving Inhabited

/-- Whether a directive changes the element it stands on or decides what is rendered. -/
inductive DirectiveKind where
  | attribute
  | structural
  deriving Repr, DecidableEq, Inhabited

/-- A directive class. -/
structure DirectiveDecl extends DeclBase where
  selector : Option String := none
  directiveKind : DirectiveKind := .attribute
  inputs : List InputProp := []
  outputs : List OutputProp := []
  hostListeners : List HostListener := []
  hostBindings : List HostBinding := []
  rendersMarkup : Bool := false
  deriving Inhabited

/-- One route and its children. -/
inductive RouteDecl where
  | mk (path : String) (component redirectTo pathMatch : Option String) (children : List RouteDecl)
      (loadChildren : Option String) (guards : List String) (title : Option String)
  deriving Repr, Inhabited

/-- A module class. -/
structure ModuleDecl extends DeclBase where
  declarations : List String := []
  imports : List String := []
  exports : List String := []
  providers : List String := []
  bootstrap : List String := []
  routes : List RouteDecl := []
  /-- The name of a table of routes declared elsewhere. -/
  routeSource : Option String := none
  deriving Inhabited

/-- Whether a module sets up routes. -/
def ModuleDecl.isRouting (d : ModuleDecl) : Bool :=
  !d.routes.isEmpty || d.routeSource.isSome

/-- A table of routes. -/
structure RouteConfigDecl extends DeclBase where
  routes : List RouteDecl := []
  deriving Inhabited

/-- A declaration of a source unit. -/
inductive Declaration where
  | component (d : ComponentDecl)
  | service (d : ServiceDecl)
  | pipe (d : PipeDecl)
  | directive (d : DirectiveDecl)
  | module (d : ModuleDecl)
  | routes (d : RouteConfigDecl)
  deriving Inhabited

/-- What every declaration has. -/
def Declaration.base : Declaration → DeclBase
  | .component d => d.toDeclBase
  | .service d => d.toDeclBase
  | .pipe d => d.toDeclBase
  | .directive d => d.toDeclBase
  | .module d => d.toDeclBase
  | .routes d => d.toDeclBase

/-- The kind of a declaration. -/
def Declaration.kind : Declaration → UnitKind
  | .component _ => .component
  | .service _ => .service
  | .pipe _ => .pipe
  | .directive _ => .directive
  | .module _ => .module
  | .routes _ => .routes

/-- The name that is declared. -/
def Declaration.name (d : Declaration) : String :=
  d.base.name

end ReactMigration
