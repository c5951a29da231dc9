import ReactMigration.Target.Markup
import ReactMigration.Target.Ref

/-!
Generated modules before they become text: imports, the parts of a function body in the order in
which they are safe to run, and one record for each kind of module.
-/

namespace ReactMigration

/-- An import of a generated module, from a package or from another generated module. -/
structure ImportSpec where
  names : List String := []
  default : Option String := none
  module : Option String := none
  target : Option ArtifactRef := none
  sideEffect : Bool := false
  typeOnly : Bool := false
  /-- Whether names that the module never uses are left out. -/
  prune : Bool := false
  deriving Repr, DecidableEq, Inhabited

/-! ### Function bodies -/

/-- A property that a component or hook receives. -/
structure PropField where
  name : String
  type : String := "any"
  optional : Bool := false
  default : Option String := none
  /-- The variable it becomes, when the name differs. -/
  binding : Option String := none
  deriving Repr, DecidableEq, Inhabited

/-- A state cell and its setter. -/
structure StateDecl where
  name : String
  setter : String
  initial : Option String := none
  type : Option String := none
  deriving Repr, DecidableEq, Inhabited

/-- A ref, a cell that does not cause rendering. -/
structure RefDecl where
  name : String
  initial : Option String := none
  type : Option String := none
  deriving Repr, DecidableEq, Inhabited

/-- A value that is declared once. -/
structure ConstDecl where
  name : String
  value : String
  type : Option String := none
  deriving Repr, DecidableEq, Inhabited

/-- A value that is computed anew when what it depends on changes. -/
structure MemoDecl where
  name : String
  expression : String
  deps : List String := []
  deriving Repr, DecidableEq, Inhabited

/-- An effect; without dependencies it runs after every rendering. -/
structure EffectDecl where
  body : String := ""
  cleanup : String := ""
  /-- Without a list the effect runs after every rendering. -/
  deps : Option (List String) := none
  comment : Option String := none
  deriving Repr, DecidableEq, Inhabited

/-- A function of a generated module. -/
structure FunctionDecl where
  name : String
  params : List Param := []
  body : String := ""
  returnType : Option String := none
  isAsync : Bool := false
  comment : Option String := none
  deriving Repr, DecidableEq, Inhabited

/-- The parts of a component or hook in the order in which they are written. -/
structure FunctionBody where
  hookCalls : List String := []
  state : List StateDecl := []
  refs : List RefDecl := []
  constants : List ConstDecl := []
  functions : List FunctionDecl := []
  derived : List ConstDecl := []
  memos : List MemoDecl := []
  /-- Hooks called for their effect alone. -/
  hookUses : List String := []
  effects : List EffectDecl := []
  deriving Repr, DecidableEq, Inhabited

/-! ### Modules -/

/-- A component, or a function that wraps components. -/
structure ComponentArtifact where
  ref : ArtifactRef
  name : String
  props : List PropField := []
  imports : List ImportSpec := []
  body : FunctionBody := {}
  markup : Option Markup := none
  moduleConstants : List ConstDecl := []
  /-- Whether it is a function from components to components. -/
  wrapper : Bool := false
  stubReason : Option String := none
  stubSource : Option String := none
  styleRef : Option ArtifactRef := none
  test : Bool := true
  deriving Repr, Inhabited

/-- A hook. -/
structure HookArtifact where
  ref : ArtifactRef
  name : String
  params : List Param := []
  imports : List ImportSpec := []
  body : FunctionBody := {}
  returns : List String := []
  returnExpression : Option String := none
  optionsType : Option String := none
  options : List PropField := []
  /-- The finished text of the module. -/
  raw : Option String := none
  shared : Bool := false
  deriving Repr, DecidableEq, Inhabited

/-- A context with its provider and the hook that reads it. -/
structure ContextArtifact where
  ref : ArtifactRef
  name : String
  provider : String
  hook : String
  imports : List ImportSpec := []
  providers : List ConstDecl := []
  comment : Option String := none
  deriving Repr, DecidableEq, Inhabited

/-- One entry of a table of routes. -/
inductive RouteEntry where
  | mk (path : Option String) (index : Bool) (element redirect : Option String)
      (children : List RouteEntry) (comment : Option String)
  deriving Repr, Inhabited

/-- A table of routes and the component that shows it. -/
structure RouteArtifact where
  ref : ArtifactRef
  name : String
  table : String
  imports : List ImportSpec := []
  routes : List RouteEntry := []
  deriving Repr, Inhabited

/-- Plain functions and values, or a text that is taken over. -/
structure UtilArtifact where
  ref : ArtifactRef
  name : String
  imports : List ImportSpec := []
  constants : List ConstDecl := []
  mutables : List ConstDecl := []
  functions : List FunctionDecl := []
  exported : List String := []
  /-- The finished text of the module. -/
  raw : Option String := none
  shared : Bool := false
  /-- Whether it exists only in typed output. -/
  typedOnly : Bool := false
  deriving Repr, DecidableEq, Inhabited

/-- A stylesheet. -/
structure StyleArtifact where
  ref : ArtifactRef
  name : String
  styles : List String := []
  deriving Repr, DecidableEq, Inhabited

/-- A generated module. -/
inductive Artifact where
  | component (a : ComponentArtifact)
  | hook (a : HookArtifact)
  | context (a : ContextArtifact)
  | routes (a : RouteArtifact)
  | util (a : UtilArtifact)
  | style (a : StyleArtifact)
  deriving Repr, Inhabited

namespace Artifact

/-- How other modules refer to it. -/
def ref : Artifact → ArtifactRef
  | .component a => a.ref
  | .hook a => a.ref
  | .context a => a.ref
  | .routes a => a.ref
  | .util a => a.ref
  | .style a => a.ref

/-- The name of the module. -/
def name : Artifact → String
  | .component a => a.name
  | .hook a => a.name
  | .context a => a.name
  | .routes a => a.name
  | .util a => a.name
  | .style a => a.name

/-- What the module imports. -/
def imports : Artifact → List ImportSpec
  | .component a => a.imports
  | .hook a => a.imports
  | .context a => a.imports
  | .routes a => a.imports
  | .util a => a.imports
  | .style _ => []

end Artifact

end ReactMigration
