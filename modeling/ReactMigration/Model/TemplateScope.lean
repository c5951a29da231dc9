import ReactMigration.Framework
import ReactMigration.Model.Basic
import ReactMigration.Report.Diagnostic
import ReactMigration.Script.Names
import ReactMigration.SymbolIndex
import ReactMigration.Template.Value

/-!
Linking a template to the index: elements to components, attributes to directives, and two-way
bindings split into their halves.  On the way the names it declares and changes are gathered.
-/

namespace ReactMigration.Model

open ReactMigration.Template
open ReactMigration.Text

/-- What is gathered while a template is linked. -/
structure TemplateScope where
  refs : Table TemplateReference := []
  mutated : List String := []
  projectsContent : Bool := false
  deriving Inhabited

/-- Linking notes diagnostics and gathers a scope. -/
abbrev Linking := StateT TemplateScope Noting

/-- Notes a name that does not resolve. -/
def unresolved (message : String) : Noting Unit :=
  Noting.warn .unresolvedReference message

/-- Notes a name that does not resolve, at its place. -/
def unresolvedAt (message : String) (p : Position) : Noting Unit :=
  Noting.warnAt .unresolvedReference message (some p.line) (some p.column)

/-- The identifier an expression starts with. -/
def baseIdentifier? (expression : String) : Option String :=
  match (Pattern.blanks ++ .group 1 .identifier).lead? expression with
  | some m => some (m.group 1)
  | none => none

/-- Remembers that an expression is assigned to. -/
def noteMutation (expression : String) : Linking Unit :=
  match baseIdentifier? expression with
  | some name => modify fun s =>
      if s.mutated.contains name then s else { s with mutated := s.mutated ++ [name] }
  | none => pure ()

/-- Notes the pipes that are not known. -/
def checkPipes (index : SymbolIndex) (value : BoundValue) (p : Position) : Noting Unit :=
  value.chain.forM fun step =>
    if Framework.isPipe step.name || (index.pipe step.name).isSome then pure ()
    else unresolvedAt s!"Unknown pipe '{step.name}'" p

/-- The directive that an attribute name selects. -/
def directiveFor? (index : SymbolIndex) (name : String) : Option String :=
  match index.attr name with
  | some s => if s.kind == .directive then some s.name else none
  | none => none

/-- Links one attribute; a two-way binding becomes two. -/
def linkAttribute (index : SymbolIndex) (a : Attribute) : Linking (List Attribute) := do
  match a with
  | .twoWay name expression p =>
      noteMutation expression
      return [.property name expression (.text expression) p true,
        .event (name ++ "Change") (expression ++ " = $event") p true]
  | .static name value p =>
      match directiveFor? index name with
      | some directive =>
          return [.directive name value (value.map .text) p false (some directive)]
      | none => return [a]
  | .property name expression value p _ =>
      match directiveFor? index name with
      | some directive =>
          return [.directive name (some expression) (some value) p true (some directive)]
      | none =>
          checkPipes index value p
          return [a]
  | .event _ handler _ _ =>
      for statement in Script.statements handler do
        match ← Noting.lift (Script.splitAssignment statement) with
        | some assignment => noteMutation assignment.target
        | none => pure ()
      return [a]
  | .directive _ _ value p bound _ =>
      match bound, value with
      | true, some v => checkPipes index v p
      | _, _ => pure ()
      return [a]
  | .reference .. => return [a]

/-- Links attributes in order. -/
def linkAttributes (index : SymbolIndex) (attributes : List Attribute) :
    Linking (List Attribute) := do
  return (← attributes.mapM (linkAttribute index)).flatten

/-- Registers the names that attributes declare for a node; a later one replaces an earlier one. -/
def registerRefs (node : Node) (attributes : List Attribute) (kind : ReferenceKind) : Linking Unit :=
  attributes.forM fun a =>
    match a with
    | .reference name _ p => do
        if (← get).refs.has name then
          Noting.warnAt .unsupportedConstruct
            s!"Template reference #{name} is declared more than once" (some p.line) (some p.column)
        modify fun s => { s with refs := s.refs.set name ⟨name, kind, node⟩ }
    | _ => pure ()

/-- The component an element stands for; an unknown custom element is noted. -/
def componentFor (index : SymbolIndex) (tag : String) (p : Position) : Noting (Option String) := do
  let found :=
    match index.element tag with
    | some s => if s.kind == .component then some s.name else none
    | none => none
  if found.isNone && tag.toList.contains '-' && !Framework.elements.contains tag then
    unresolvedAt s!"Unknown element <{tag}>" p
  return found

mutual

/-- Links a node and what it holds. -/
def linkNode (index : SymbolIndex) : Node → Linking Node
  | .element tag attributes children p selfClosing _ => do
      let component ← componentFor index tag p
      let attributes ← linkAttributes index attributes
      let children ← linkNodes index children
      let node := Node.element tag attributes children p selfClosing component
      registerRefs node attributes (if component.isSome then .component else .element)
      return node
  | .container kind attributes children p => do
      if kind == "ng-content" then modify fun s => { s with projectsContent := true }
      let attributes ← linkAttributes index attributes
      let children ← linkNodes index children
      let node := Node.container kind attributes children p
      registerRefs node attributes (if kind == "ng-template" then .template else .element)
      return node
  | .structural name expression clauses child p _ => do
      let directive := if Framework.directives.contains name then none else directiveFor? index name
      if !Framework.directives.contains name && directive.isNone then
        unresolvedAt s!"Unknown structural directive *{name}" p
      checkPipes index (parseBoundValue clauses.expression (some p)) p
      return .structural name expression clauses (← linkNode index child) p directive
  | .interpolation expression value p => do
      checkPipes index value p
      return .interpolation expression value p
  | .text t p => return .text t p

/-- Links nodes in order. -/
def linkNodes (index : SymbolIndex) : List Node → Linking (List Node)
  | [] => return []
  | n :: ns => do
      let n ← linkNode index n
      let ns ← linkNodes index ns
      return n :: ns

end

end ReactMigration.Model
