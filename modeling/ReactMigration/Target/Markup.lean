/-!
Trees of generated markup.
-/

namespace ReactMigration

/-- A property of a generated element. -/
structure MarkupAttr where
  name : String
  /-- Without a value the property is simply set. -/
  value : Option String := none
  /-- Whether the value is code or plain text. -/
  expression : Bool := true
  /-- Whether the value's own properties are spread. -/
  spread : Bool := false
  deriving Repr, DecidableEq, Inhabited

/-- A node of generated markup. -/
inductive Markup where
  | element (tag : String) (attrs : List MarkupAttr) (children : List Markup)
  | text (text : String)
  | expression (code : String)
  | fragment (children : List Markup) (key : Option String)
  | conditional (condition : String) (shown : Markup) (otherwise : Option Markup)
  /-- One body for each item of a list. -/
  | loop (iterable item index : String) (body : Markup)
  /-- A component that decides by itself whether to render the body. -/
  | renderProp (component : String) (attrs : List MarkupAttr) (params : List String) (body : Markup)
  /-- A remark in place of markup. -/
  | remark (comment : String)
  deriving Repr, Inhabited

/-- The node that shows nothing. -/
def Markup.nothing : Markup :=
  .expression "null"

/-- Several nodes as one. -/
def Markup.ofList : List Markup → Markup
  | [] => .nothing
  | [node] => node
  | nodes => .fragment nodes none

/-- A node that stays on the line of its neighbours. -/
def Markup.isInline : Markup → Bool
  | .text _ => true
  | .expression code => !code.toList.contains '\n'
  | _ => false

end ReactMigration
