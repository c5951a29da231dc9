import ReactMigration.Declaration.Basic
import ReactMigration.Naming

/-!
The model of a unit, free of any framework: state, refs, constants, methods and effects, with
dependencies resolved.  Method bodies are still source text.
-/

namespace ReactMigration

/-- How a dependency was resolved. -/
inductive InjectedKind where
  | service
  | builtin
  | unresolved
  deriving Repr, DecidableEq, Inhabited

/-- A dependency with its resolution. -/
structure Injected where
  name : String
  typeName : String
  kind : InjectedKind
  /-- The class it resolves to, and the unit of that class. -/
  target : Option String := none
  targetUnit : Option String := none
  optional : Bool := false
  deriving Repr, DecidableEq, Inhabited

/-- When an effect runs. -/
inductive Trigger where
  /-- Once, after the first rendering. -/
  | mount
  /-- When inputs change. -/
  | changes
  /-- After every rendering. -/
  | everyRender
  deriving Repr, DecidableEq, Inhabited

/-- Why a field became state. -/
inductive StateOrigin where
  | field
  | subject
  | twoWay
  deriving Repr, DecidableEq, Inhabited

/-- A field whose changes show. -/
structure StateCell where
  name : String
  type : Option String := none
  initial : Option String := none
  origin : StateOrigin := .field
  isPublic : Bool := true
  deriving Repr, DecidableEq, Inhabited

/-- The function that replaces the cell's value. -/
def StateCell.setter (c : StateCell) : String :=
  Naming.setterName c.name

/-- A field whose changes do not show, or a handle on a template element. -/
structure RefCell where
  name : String
  type : Option String := none
  initial : Option String := none
  element : Bool := false
  deriving Repr, DecidableEq, Inhabited

/-- A field that never changes. -/
structure ConstantCell where
  name : String
  type : Option String := none
  value : Option String := none
  static : Bool := false
  isPublic : Bool := true
  deriving Repr, DecidableEq, Inhabited

/-- Code that runs outside of rendering. -/
structure Effect where
  trigger : Trigger
  body : String := ""
  cleanup : String := ""
  deps : List String := []
  /-- The lifecycle methods it stands for. -/
  origin : List String := []
  deriving Repr, DecidableEq, Inhabited

/-- A method. -/
structure MethodModel where
  name : String
  params : List Param := []
  body : String := ""
  returnType : Option String := none
  isAsync : Bool := false
  /-- Asynchronous, or returning a promise. -/
  asynchronous : Bool := false
  isPublic : Bool := true
  deriving Repr, DecidableEq, Inhabited

/-- A property computed on access. -/
structure GetterModel where
  name : String
  body : String
  type : Option String := none
  deriving Repr, DecidableEq, Inhabited

/-- What a template reference names. -/
inductive ReferenceKind where
  | element
  | template
  | component
  deriving Repr, DecidableEq, Inhabited

/-- A name declared in a template for one of its nodes. -/
structure TemplateReference where
  name : String
  kind : ReferenceKind
  node : Template.Node
  deriving Inhabited

/-- What every model has. -/
structure ModelBase where
  name : String
  sourcePath : String
  dependencies : List Injected := []
  state : List StateCell := []
  refs : List RefCell := []
  constants : List ConstantCell := []
  methods : List MethodModel := []
  getters : List GetterModel := []
  effects : List Effect := []
  /-- The state cells that are backed by a subject. -/
  subjects : List String := []
  sourceImports : List ImportDecl := []
  deriving Inhabited

/-- The model of a component. -/
structure ComponentModel extends ModelBase where
  selector : Option String := none
  inputs : List InputProp := []
  outputs : List OutputProp := []
  template : List Template.Node := []
  templateRefs : Table TemplateReference := []
  hostListeners : List HostListener := []
  styles : List String := []
  projectsContent : Bool := false
  templateError : Option String := none
  templateSource : Option String := none
  /-- The ref cell that a template reference fills. -/
  viewChildren : Table String := []
  deriving Inhabited

/-- The model of a service. -/
structure ServiceModel extends ModelBase where
  deriving Inhabited

/-- The model of a pipe. -/
structure PipeModel extends ModelBase where
  pipeName : String := ""
  pure : Bool := true
  transform : Option MethodModel := none
  deriving Inhabited

/-- The model of a directive. -/
structure DirectiveModel extends ModelBase where
  selector : Option String := none
  attr : Option String := none
  directiveKind : DirectiveKind := .attribute
  inputs : List InputProp := []
  outputs : List OutputProp := []
  hostListeners : List HostListener := []
  hostBindings : List HostBinding := []
  rendersMarkup : Bool := false
  /-- For a structural directive, what decides whether its region is rendered. -/
  condition : Option String := none
  deriving Inhabited

/-- The model of a module. -/
structure ModuleModel extends ModelBase where
  providers : List Injected := []
  declarations : List String := []
  routes : List RouteDecl := []
  isRouting : Bool := false
  /-- The unit that declares the routes when it is another one. -/
  routeTableUnit : Option String := none
  deriving Inhabited

/-- The model of a table of routes. -/
structure RouteTableModel extends ModelBase where
  routes : List RouteDecl := []
  deriving Inhabited

/-- A unit that is passed through unconverted, with the reason. -/
structure StubModel where
  name : String
  sourcePath : String
  unitKind : Option UnitKind
  reason : String
  sourceText : String := ""
  inputs : List InputProp := []
  outputs : List OutputProp := []
  deriving Inhabited

/-- A unit of types alone. -/
structure TypesModel where
  name : String
  sourcePath : String
  text : String
  deriving Repr, Inhabited

/-- The model of a unit. -/
inductive UnitModel where
  | component (m : ComponentModel)
  | service (m : ServiceModel)
  | pipe (m : PipeModel)
  | directive (m : DirectiveModel)
  | module (m : ModuleModel)
  | routeTable (m : RouteTableModel)
  | stub (m : StubModel)
  | types (m : TypesModel)
  deriving Inhabited

end ReactMigration
