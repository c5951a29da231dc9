import ReactMigration.Table

/-!
Trees of template markup.
-/

namespace ReactMigration.Template

/-- A place in a template: line and column from one, offset from zero. -/
structure Position where
  line : Nat := 1
  column : Nat := 1
  offset : Nat := 0
  deriving Repr, DecidableEq, Inhabited

/-- A bound expression: plain text, or a pipe applied to a bound expression. -/
inductive BoundValue where
  | text (expression : String)
  | pipe (name : String) (input : BoundValue) (args : List String) (position : Option Position)
  deriving Repr, Inhabited, DecidableEq

/-- One application of a pipe. -/
structure PipeStep where
  name : String
  args : List String
  position : Option Position
  deriving Repr, Inhabited

/-- The expression the pipes are applied to. -/
def BoundValue.base : BoundValue → String
  | .text s => s
  | .pipe _ input _ _ => input.base

/-- The pipes in the order they apply. -/
def BoundValue.chain : BoundValue → List PipeStep
  | .text _ => []
  | .pipe name input args position => input.chain ++ [⟨name, args, position⟩]

/-- The decoded expression of a structural directive. -/
structure Clauses where
  expression : String
  item : Option String := none
  locals : Table String := []
  trackBy : Option String := none
  elseRef : Option String := none
  thenRef : Option String := none
  asName : Option String := none
  extra : Table String := []
  deriving Repr, Inhabited, DecidableEq

/-- An attribute of an element. -/
inductive Attribute where
  | static (name : String) (value : Option String) (position : Position)
  | property (name expression : String) (value : BoundValue) (position : Position) (twoWay : Bool)
  | event (name handler : String) (position : Position) (twoWay : Bool)
  | twoWay (name expression : String) (position : Position)
  | reference (name : String) (value : Option String) (position : Position)
  | directive (name : String) (expression : Option String) (value : Option BoundValue)
      (position : Position) (bound : Bool) (resolved : Option String)
  deriving Repr, Inhabited, DecidableEq

/-- Where an attribute starts. -/
def Attribute.position : Attribute → Position
  | .static _ _ p => p
  | .property _ _ _ p _ => p
  | .event _ _ p _ => p
  | .twoWay _ _ p => p
  | .reference _ _ p => p
  | .directive _ _ _ p _ _ => p

/-- A node of a template. -/
inductive Node where
  | element (tag : String) (attributes : List Attribute) (children : List Node)
      (position : Position) (selfClosing : Bool) (component : Option String)
  | text (text : String) (position : Position)
  | interpolation (expression : String) (value : BoundValue) (position : Position)
  /-- A structural directive around the element that carries it. -/
  | structural (name expression : String) (clauses : Clauses) (child : Node)
      (position : Position) (directive : Option String)
  /-- A grouping, template or projection element, which has no markup of its own. -/
  | container (kind : String) (attributes : List Attribute) (children : List Node)
      (position : Position)
  deriving Repr, Inhabited

/-- Where a node starts. -/
def Node.position : Node → Position
  | .element _ _ _ p _ _ => p
  | .text _ p => p
  | .interpolation _ _ p => p
  | .structural _ _ _ _ p _ => p
  | .container _ _ _ p => p

/-- Whether a node shows an expression. -/
def Node.isInterpolation : Node → Bool
  | .interpolation _ _ _ => true
  | _ => false

end ReactMigration.Template
