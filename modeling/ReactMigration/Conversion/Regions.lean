import ReactMigration.Conversion.Attributes

/-!
Template trees as generated markup: conditions, loops, switches, templates rendered elsewhere and
custom structural directives.

A reference to a template is replaced by the template's content, so conversion recurses on the tree
and, beside it, on the number of references that may still be followed.
-/

namespace ReactMigration

open ReactMigration.Template
open ReactMigration.Text

/-- What stands for the content of a named template. -/
abbrev ContentOf := Option String → Scope → Position → Converting (Option Markup)

/-- Puts a key on the body of a loop. -/
def withKey (body : Markup) (key : String) : Converting Markup := do
  let attr : MarkupAttr := { name := "key", value := some key }
  match body with
  | .element tag attrs children => return .element tag (attr :: attrs) children
  | .renderProp component attrs params inner => return .renderProp component (attr :: attrs) params inner
  | .fragment children _ =>
      Converting.react ["Fragment"]
      return .fragment children (some key)
  | other =>
      Converting.react ["Fragment"]
      return .fragment [other] (some key)

/-- The parts of a loop: what it runs over, the item, the index, and the scope of its body. -/
structure LoopHead where
  iterable : String
  item : String
  index : String
  key : String
  scope : Scope
  deriving Inhabited

/-- The code of a derived loop variable. -/
def loopLocal? (index length source : String) : Option String :=
  match source with
  | "first" => some s!"({index} === 0)"
  | "last" => some s!"({index} === {length} - 1)"
  | "even" => some s!"({index} % 2 === 0)"
  | "odd" => some s!"({index} % 2 === 1)"
  | "count" => some length
  | _ => none

/-- Reads the head of a loop. -/
def loopHead (env : TemplateEnv) (s : Scope) (c : Clauses) (p : Position) : Converting LoopHead := do
  let iterable ← s.boundAt env (parseBoundValue c.expression (some p)) p
  let item := if present c.item then c.item.getD "" else "item"
  let index := ((c.locals.find? (·.2 == "index")).map (·.1)).getD "index"
  let length := (if Scope.accessPath.covers iterable then iterable else s!"({iterable})") ++ ".length"
  let start : Table String := Table.set [(item, item)] index index
  let names ← c.locals.foldlM (fun (t : Table String) (name, source) => do
    if source == "index" then return t
    match loopLocal? index length source with
    | some code => return t.set name code
    | none =>
        Converting.warnAt s!"*ngFor local '{source}' is not supported" p
        return t) start
  let scope := s.child names true
  let key ←
    if present c.trackBy then
      let trackBy := c.trackBy.getD ""
      scope.expression env s!"{trackBy}({index}, {item})"
    else do
      Noting.warnAt .keyFallback
        s!"*ngFor over '{c.expression}' has no trackBy; items are keyed by index" (some p.line)
        (some p.column)
      pure index
  return { iterable, item, index, key, scope }

/-- The condition of a region and the scope inside it. -/
def conditionHead (env : TemplateEnv) (s : Scope) (c : Clauses) (p : Position) :
    Converting (String × Scope) := do
  let condition ← s.bound env (parseBoundValue c.expression (some p)) c.asName (some p)
  let names : Table String :=
    if present c.asName then
      [(c.asName.getD "", if isIdentifier condition then condition else s!"({condition})")]
    else []
  return (condition, s.child names false)

/-- The component and properties of a custom structural directive. -/
def customHead (env : TemplateEnv) (s : Scope) (name directive : String) (c : Clauses) (p : Position) :
    Converting (String × List MarkupAttr) := do
  match env.index.lookup directive with
  | none => throw (.absentValue "declaration")
  | some symbol =>
      let component := Naming.componentName symbol.declaration.name
      let d ← Noting.lift symbol.declaration.asDirective
      Converting.imports fun i =>
        i.defaultOf (.directive d.name symbol.unit d.directiveKind d.rendersMarkup) component
      let main ←
        if c.expression == "" then pure []
        else do
          let value ← s.boundAt env (parseBoundValue c.expression (some p)) p
          pure [({ name, value := some value } : MarkupAttr)]
      let extra ← c.extra.mapM fun (key, expression) => do
        return ({ name := name ++ upperFirst key, value := some (← s.expression env expression) }
          : MarkupAttr)
      if present c.item || !c.locals.isEmpty then
        Converting.warnAt s!"Template context variables of *{name} are not converted" p
      return (component, main ++ extra)

/-- A switch while its children are read: cases in order, the default and all other children. -/
structure SwitchParts where
  cases : List (String × Markup) := []
  fallback : Option Markup := none
  others : List Markup := []
  deriving Inhabited

/-- The children of a switch: the others first, then a chain of conditions. -/
def SwitchParts.markup (w : SwitchParts) : List Markup :=
  let chain := w.cases.foldr (fun (condition, region) chain =>
    some (.conditional condition region chain)) w.fallback
  w.others ++ chain.toList

/-- The template that a grouping element renders elsewhere. -/
def outletOf? (attributes : List Attribute) : Option String :=
  attributes.findSome? fun
    | .property name expression _ _ _ => if name == "ngTemplateOutlet" then some expression else none
    | _ => none

/-- A place for projected content; a remark is made once if it is a named slot. -/
def contentSlot (attributes : List Attribute) (p : Position) : Converting Markup := do
  let named := attributes.any fun
    | .static name _ _ => name == "select"
    | _ => false
  if named && !(← get).slotNoted then
    modify fun d => { d with slotNoted := true }
    Converting.warnAt "Named content slots (<ng-content select>) are merged into children" p
  return .expression "children"

mutual

/-- Converts a node; `region` tells that a structural directive governs it, so that a grouping
element or template stands for its children. -/
def convertNode (env : TemplateEnv) (content : ContentOf) (s : Scope) (region : Bool) :
    Node → Converting (Option Markup)
  | .text t _ => return some (.text t)
  | .interpolation _ value p => return some (.expression (← s.boundAt env value p))
  | .element tag attributes children _ _ component => do
      let start ← startTag env s tag attributes component
      let children ←
        match start.switch with
        | some switch => do
            let parts ← convertSwitch env content s switch children
            pure parts.markup
        | none => convertNodes env content s children
      let attrs ← start.bag.finish start.activeClass
      return some (.element start.tag attrs children)
  | .container kind attributes children p => do
      if region && (kind == "ng-container" || kind == "ng-template") then
        return some (.ofList (← convertNodes env content s children))
      else if kind == "ng-content" then return some (← contentSlot attributes p)
      else if kind == "ng-template" then return none
      else
        match outletOf? attributes with
        | some expression => content (some (trim expression)) s p
        | none => return some (.ofList (← convertNodes env content s children))
  | .structural name _ clauses child p directive => do
      match directive with
      | some directive => do
          let (component, attrs) ← customHead env s name directive clauses p
          let body ← convertNode env content (s.child [] false) true child
          return some (.renderProp component attrs [] (body.getD .nothing))
      | none =>
          if name == "ngIf" then do
            let (condition, inner) ← conditionHead env s clauses p
            let shown ←
              if present clauses.thenRef then content clauses.thenRef inner p
              else convertNode env content inner true child
            let otherwise ←
              if present clauses.elseRef then content clauses.elseRef (s.child [] false) p
              else pure none
            return some (.conditional condition (shown.getD .nothing) otherwise)
          else if name == "ngFor" || name == "ngForOf" then do
            let head ← loopHead env s clauses p
            let body ← convertNode env content head.scope true child
            return some (.loop head.iterable head.item head.index
              (← withKey (body.getD .nothing) head.key))
          else if name == "ngTemplateOutlet" then do
            if !clauses.extra.isEmpty then
              Converting.warnAt "ngTemplateOutlet context is not converted" p
            content (some clauses.expression) s p
          else do
            if name == "ngSwitchCase" || name == "ngSwitchDefault" then
              Converting.warnAt s!"*{name} outside of an [ngSwitch] element" p
            let body ← convertNode env content s true child
            return some (body.getD .nothing)

/-- Converts nodes in order. -/
def convertNodes (env : TemplateEnv) (content : ContentOf) (s : Scope) :
    List Node → Converting (List Markup)
  | [] => return []
  | n :: ns => do
      let first ← convertNode env content s false n
      let rest ← convertNodes env content s ns
      return first.toList ++ rest

/-- Converts the children of a switch; the last default wins. -/
def convertSwitch (env : TemplateEnv) (content : ContentOf) (s : Scope) (switch : String) :
    List Node → Converting SwitchParts
  | [] => return {}
  | .structural "ngSwitchCase" _ clauses child p _ :: ns => do
      let value ← s.boundAt env (parseBoundValue clauses.expression (some p)) p
      let region ← convertNode env content (s.child [] false) true child
      let rest ← convertSwitch env content s switch ns
      return { rest with cases := (s!"{switch} === {value}", region.getD .nothing) :: rest.cases }
  | .structural "ngSwitchDefault" _ _ child _ _ :: ns => do
      let region ← convertNode env content (s.child [] false) true child
      let rest ← convertSwitch env content s switch ns
      return { rest with fallback := rest.fallback.orElse fun _ => some (region.getD .nothing) }
  | n :: ns => do
      let first ← convertNode env content s false n
      let rest ← convertSwitch env content s switch ns
      return { rest with others := first.toList ++ rest.others }

end

/-- The children of a template reference. -/
def TemplateReference.children (r : TemplateReference) : List Node :=
  match r.node with
  | .element _ _ children _ _ _ => children
  | .container _ _ children _ => children
  | _ => []

/-- Notes that a name is no template. -/
def noTemplate (name : Option String) (p : Position) : Converting (Option Markup) := do
  let shown := name.getD "None"
  Noting.warnAt .unresolvedReference
    s!"Template reference '{shown}' does not name an <ng-template>" (some p.line) (some p.column)
  return none

/-- The content of a named template, following at most so many references within one another. -/
def templateContent (env : TemplateEnv) : Nat → ContentOf
  | 0, _, _, _ => throw .endlessTemplate
  | n + 1, name, s, p => do
      match env.refs.get? (name.getD "") with
      | some ref =>
          if ref.kind == .template then
            return some (.ofList (← convertNodes env (templateContent env n) s ref.children))
          else noTemplate name p
      | none => noTemplate name p

/-- The locals that template references give: a ref for an element, nothing for a component. -/
def referenceLocals (env : TemplateEnv) : Table TemplateReference → Converting (Table String)
  | [] => return []
  | (name, ref) :: rest => do
      let here : List (String × String) ←
        match ref.kind with
        | .template => pure []
        | .component => do
            Converting.warn
              s!"Template reference #{name} on a component has no instance to refer to in React"
            pure [(name, "undefined")]
        | .element => do
            let ref ←
              match env.viewChildren.get? name with
              | some field => pure field
              | none => do
                  let taken := (← get).taken
                  let made ← Converting.unique (if taken.contains name then name ++ "Ref" else name)
                  let tag :=
                    match ref.node with
                    | .element tag _ _ _ _ _ => tag
                    | _ => ""
                  Converting.modifyBody fun b =>
                    { b with refs := b.refs ++
                        [{ name := made, initial := some "null", type := some (elementTypeOf tag) }] }
                  Converting.react ["useRef"]
                  pure made
            modify fun d => { d with elementRefs := d.elementRefs.set name ref }
            pure [(name, ref ++ ".current!")]
      return here ++ (← referenceLocals env rest)

/-- Converts the template of a component; an empty one has no markup. -/
def convertTemplate (env : TemplateEnv) (template : List Node) : Converting (Option Markup) := do
  modify fun d => { d with
    taken := env.names.members ++ env.names.outputs.values ++ d.body.refs.map (·.name) }
  let locals ← referenceLocals env env.refs
  let nodes ← convertNodes env (templateContent env (env.refs.length + 1)) { locals } template
  return if nodes.isEmpty then none else some (.ofList nodes)

end ReactMigration
