import ReactMigration.Conversion.Handler
import ReactMigration.Conversion.Scope

/-!
The attributes of a template element as properties of a generated element.

Class and style bindings are merged into one property each, handlers of one event into one
function.  Custom attribute directives become hook calls on a ref or wrappers of the element.
-/

namespace ReactMigration

open ReactMigration.Template
open ReactMigration.Text

/-- The properties of an element while they are gathered. -/
structure PropBag where
  ref : Option String := none
  attrs : List MarkupAttr := []
  classes : List String := []
  /-- Classes with the condition under which they apply. -/
  classToggles : List (String × String) := []
  classExpressions : List String := []
  styles : List (String × String) := []
  styleSpreads : List String := []
  handlers : Table (List Handler) := []
  deriving Inhabited

namespace PropBag

/-- Adds a property. -/
def addAttr (b : PropBag) (name value : String) : PropBag :=
  { b with attrs := b.attrs ++ [{ name, value := some value }] }

/-- Adds a handler to those of its prop. -/
def addHandler (b : PropBag) : Option Handler → PropBag
  | none => b
  | some h => { b with handlers := b.handlers.set h.prop ((b.handlers.get? h.prop).getD [] ++ [h]) }

/-- Braces around entries. -/
def objectText (entries : List String) : String :=
  "\x7b " ++ ", ".intercalate entries ++ " \x7d"

/-- The class property: plain text if nothing is computed. -/
def classAttr (b : PropBag) (activeClass : Option String) : Converting (Option MarkupAttr) := do
  let active := activeClass.getD ""
  let toggles := b.classToggles ++ (words active).map (·, "isActive")
  let parts :=
    (if b.classes.isEmpty then [] else [quoteText (" ".intercalate b.classes)]) ++
    (if toggles.isEmpty then []
     else [objectText (toggles.map fun (k, v) => objectKey k ++ ": " ++ v)]) ++
    b.classExpressions
  let call := "classNames(" ++ ", ".intercalate parts ++ ")"
  if parts.isEmpty then return none
  else if active != "" then
    Converting.imports fun i => i.named Support.classNames "classNames"
    return some { name := "className", value := some ("(\x7b isActive \x7d) => " ++ call) }
  else if toggles.isEmpty && b.classExpressions.isEmpty then
    return some { name := "className", value := some (" ".intercalate b.classes)
                  expression := false }
  else
    Converting.imports fun i => i.named Support.classNames "classNames"
    return some { name := "className", value := some call }

/-- The gathered properties in order: ref, plain ones, class, style, handlers. -/
def finish (b : PropBag) (activeClass : Option String) : Converting (List MarkupAttr) := do
  let classes ← b.classAttr activeClass
  let styles := b.styleSpreads.map ("..." ++ ·) ++ b.styles.map fun (k, v) => k ++ ": " ++ v
  let handlers := b.handlers.map fun (prop, hs) =>
    ({ name := prop, value := some (Handler.merge hs) } : MarkupAttr)
  let ref :=
    match b.ref with
    | some r => if r == "" then [] else [({ name := "ref", value := some r } : MarkupAttr)]
    | none => []
  return ref ++ b.attrs ++ classes.toList ++
    (if styles.isEmpty then []
     else [({ name := "style", value := some (objectText styles) } : MarkupAttr)]) ++ handlers

/-! ### Single attributes -/

/-- The declarations of a style attribute. -/
def styleDeclarations (value : String) : List (String × String) :=
  (splitAt ';' value).filterMap fun declaration =>
    match breakOn? [':'] declaration.toList with
    | some (key, rest) =>
        let key := trim (String.ofList key)
        if key == "" then none
        else some (styleKey key, quoteText (trim (String.ofList rest)))
    | none => none

/-- An attribute with a fixed text. -/
def static (b : PropBag) (name : String) (value : Option String) (p : Position)
    (isComponent : Bool) : Converting PropBag := do
  if name == "i18n" || name.startsWith "i18n-" then return b
  let text := value.getD ""
  if occursIn "\x7b\x7b" text then
    Converting.warnAt s!"Piped interpolation in attribute '{name}' is copied as text" p
  if (name == "class" || name == "style") && isComponent then
    Converting.warnAt s!"Host {name} on a component element is not forwarded" p
    return b
  else if name == "class" then return { b with classes := b.classes ++ words text }
  else if name == "style" then return { b with styles := b.styles ++ styleDeclarations text }
  else
    let prop := if isComponent then name else Framework.attributeName name
    let set : MarkupAttr :=
      match value with
      | none => { name := prop }
      | some v =>
          if v == "" && !isComponent then { name := prop }
          else { name := prop, value := some v, expression := false }
    return { b with attrs := b.attrs ++ [set] }

/-- A value with a unit. -/
def withUnit (code unit : String) : String :=
  "\x60$\x7b" ++ code ++ "\x7d" ++ replaceAll "percent" "%" unit ++ "\x60"

/-- A property bound to code. -/
def property (b : PropBag) (name code : String) (isComponent : Bool) (formValue : Option String) :
    PropBag :=
  if name == "ngModel" then b.addAttr (if present formValue then formValue.getD "" else "value") code
  else if isComponent then b.addAttr name code
  else if name.startsWith "class." then
    { b with classToggles := b.classToggles ++ [((name.drop 6).toString, code)] }
  else if name == "class" || name == "className" then
    { b with classExpressions := b.classExpressions ++ [code] }
  else if name.startsWith "style." then
    let parts := splitAt '.' name
    let value :=
      match parts with
      | _ :: _ :: unit :: _ => withUnit code unit
      | _ => code
    { b with styles := b.styles ++ [(styleKey (parts.getD 1 ""), value)] }
  else if name == "style" then { b with styleSpreads := b.styleSpreads ++ [code] }
  else if name.startsWith "attr." then
    b.addAttr (Framework.attributeName (name.drop 5).toString) code
  else if name == "innerHTML" then
    b.addAttr "dangerouslySetInnerHTML" ("\x7b __html: " ++ code ++ " \x7d")
  else b.addAttr (Framework.attributeName name) code

/-- The bound value of a directive attribute. -/
def directiveValue (env : TemplateEnv) (s : Scope) (value : Option BoundValue) (p : Position) :
    Converting String :=
  match value with
  | some v => s.boundAt env v p
  | none => throw (.absentValue "strip")

/-- A class or style directive of the framework. -/
def builtinDirective (env : TemplateEnv) (s : Scope) (b : PropBag) (name : String)
    (expression : Option String) (value : Option BoundValue) (p : Position) (isBound : Bool) :
    Converting PropBag := do
  if name == "ngClass" then
    if isBound then
      return { b with classExpressions := b.classExpressions ++ [← directiveValue env s value p] }
    else return { b with classes := b.classes ++ words (expression.getD "") }
  else if name == "ngStyle" then
    if isBound then
      return { b with styleSpreads := b.styleSpreads ++ [← directiveValue env s value p] }
    else
      Converting.warnAt "Static ngStyle is not converted" p
      return b
  else return b

end PropBag

/-! ### Custom directives -/

/-- What a declaration with inputs and outputs offers to templates. -/
structure DirectiveUse where
  /-- The place of the attribute that brings the directive in. -/
  position : Nat
  attr : Attribute
  symbol : Symbol
  inputs : List String
  outputs : List String
  /-- The attribute names that it takes for itself. -/
  names : List String
  deriving Inhabited

namespace Declaration

/-- The name of a declaration's record in messages. -/
def recordName : Declaration → String
  | .component _ => "ComponentDecl"
  | .service _ => "ServiceDecl"
  | .pipe _ => "PipeDecl"
  | .directive _ => "DirectiveDecl"
  | .module _ => "ModuleDecl"
  | .routes _ => "RouteConfigDecl"

/-- The public names of inputs and outputs. -/
def publicNames : Declaration → Except Fault (List String × List String)
  | .component d => .ok (d.inputs.map (·.publicName), d.outputs.map (·.publicName))
  | .directive d => .ok (d.inputs.map (·.publicName), d.outputs.map (·.publicName))
  | d => .error (.lacksProperty d.recordName "inputs")

/-- The declaration as a directive. -/
def asDirective : Declaration → Except Fault DirectiveDecl
  | .directive d => .ok d
  | d => .error (.lacksProperty d.recordName "directive_kind")

end Declaration

/-- The custom directives on an element, each with the attribute names it takes; a name goes to the
first directive that wants it. -/
def directiveUses (index : SymbolIndex) :
    Nat → List String → List Attribute → Except Fault (List DirectiveUse)
  | _, _, [] => return []
  | position, claimed, attr :: rest => do
      match attr with
      | .directive _ _ _ _ _ (some resolved) =>
          match if resolved == "" then none else index.lookup resolved with
          | some symbol => do
              let (inputs, outputs) ← symbol.declaration.publicNames
              let names := (inputs ++ outputs).filter (!claimed.contains ·)
              let more ← directiveUses index (position + 1) (claimed ++ names) rest
              return { position, attr, symbol, inputs, outputs, names } :: more
          | none => directiveUses index (position + 1) claimed rest
      | _ => directiveUses index (position + 1) claimed rest

/-- The option that a directive's own attribute sets. -/
def ownOption (env : TemplateEnv) (s : Scope) (u : DirectiveUse) :
    Converting (List (String × String)) := do
  match u.attr with
  | .directive name expression value p isBound _ =>
      if !u.inputs.contains name then return []
      else if isBound then return [(name, ← PropBag.directiveValue env s value p)]
      else if present expression then return [(name, quoteText (expression.getD ""))]
      else return []
  | _ => return []

/-- The option that another attribute of the element sets. -/
def otherOption (env : TemplateEnv) (s : Scope) (u : DirectiveUse) (attr : Attribute) :
    Converting (List (String × String)) := do
  match attr with
  | .static name value _ =>
      if u.names.contains name && u.inputs.contains name then
        return [(name, (value.map quoteText).getD "true")]
      else return []
  | .property name _ value p _ =>
      if u.names.contains name && u.inputs.contains name then
        return [(name, ← s.boundAt env value p)]
      else return []
  | .event name handler p twoWay =>
      if u.names.contains name && u.outputs.contains name then
        match ← Handler.ofBinding env.names s.locals name handler p twoWay true none with
        | some h => return [(h.prop, h.render)]
        | none => return []
      else return []
  | _ => return []

/-- The options that an element gives to a directive. -/
def directiveOptions (env : TemplateEnv) (s : Scope) (u : DirectiveUse)
    (attributes : List Attribute) : Converting (List (String × String)) := do
  let own ← ownOption env s u
  let others := attributes.zipIdx.filter fun (_, i) => i != u.position
  let more ← others.mapM fun (attr, _) => otherOption env s u attr
  return own ++ more.flatten

/-- Applies one directive to an element; a wrapper is returned with the directive's name. -/
def applyDirective (env : TemplateEnv) (s : Scope) (sourceTag tag : String) (isComponent : Bool)
    (attributes : List Attribute) (b : PropBag) (u : DirectiveUse) :
    Converting (PropBag × List (String × String)) := do
  let d ← Noting.lift u.symbol.declaration.asDirective
  let p := u.attr.position
  if d.directiveKind == .structural then
    Converting.warnAt s!"Structural directive {d.name} used without '*'" p
    return (b, [])
  let options ← directiveOptions env s u attributes
  let ref := ArtifactRef.directive d.name u.symbol.unit d.directiveKind d.rendersMarkup
  if d.rendersMarkup then
    let wrapper := Naming.directiveWrapperName d.name
    Converting.imports fun i => i.defaultOf ref wrapper
    return (options.foldl (fun b (k, v) => b.addAttr k v) b, [(d.name, wrapper)])
  else if isComponent then
    Converting.warnAt s!"Directive {d.name} on component <{sourceTag}> needs a DOM element" p
    return (b, [])
  else if s.inLoop then
    Converting.warnAt s!"Directive {d.name} inside *ngFor is not applied" p
    return (b, [])
  else
    let hook := Naming.directiveHookName d.name
    Converting.imports fun i => i.named ref hook
    let hostRef ←
      match b.ref with
      | some r => pure r
      | none => do
          let r ← Converting.unique (Naming.camelCase (Naming.componentName d.name) ++ "Ref")
          Converting.modifyBody fun body =>
            { body with refs := body.refs ++
                [{ name := r, initial := some "null", type := some (elementTypeOf tag) }] }
          Converting.react ["useRef"]
          pure r
    let arguments :=
      if options.isEmpty then hostRef
      else hostRef ++ ", " ++
        PropBag.objectText (options.map fun (k, v) => objectKey k ++ ": " ++ v)
    Converting.modifyBody fun body =>
      { body with hookUses := body.hookUses ++ [s!"{hook}({arguments});"] }
    return ({ b with ref := some hostRef }, [])

/-- Applies directives in order. -/
def applyEach (env : TemplateEnv) (s : Scope) (sourceTag tag : String) (isComponent : Bool)
    (attributes : List Attribute) :
    PropBag → List DirectiveUse → Converting (PropBag × List (String × String))
  | b, [] => return (b, [])
  | b, u :: us => do
      let (b, wrappers) ← applyDirective env s sourceTag tag isComponent attributes b u
      let (b, more) ← applyEach env s sourceTag tag isComponent attributes b us
      return (b, wrappers ++ more)

/-- Whether a tag starts with a capital letter. -/
def startsUpper (tag : String) : Bool :=
  (tag.toList.head?.map isUpperCase).getD false

/-- The element type after all wrappers: a constant of the module. -/
def wrappedTag (tag : String) (isComponent : Bool) (wrappers : List (String × String)) :
    Converting String := do
  if wrappers.isEmpty then return tag
  let base := if isComponent || startsUpper tag then tag else quoteText tag
  let value := wrappers.foldl (fun v (_, wrapper) => s!"{wrapper}({v})") base
  let stem := if startsUpper tag then tag else Naming.pascalCase tag
  let name := stem ++ "With" ++ String.join (wrappers.map fun (d, _) => Naming.componentName d)
  modify fun d =>
    if d.moduleConstants.any (·.name == name) then d
    else { d with moduleConstants := d.moduleConstants ++ [{ name, value }] }
  return name

/-! ### All attributes of an element -/

/-- What an element's attributes say beside its properties. -/
structure ElementParts where
  bag : PropBag := {}
  link : Option String := none
  activeClass : Option String := none
  switch : Option String := none
  deriving Inhabited

/-- Form controls. -/
def formControls : List String :=
  ["input", "textarea", "select"]

/-- The property that holds the value of a form control. -/
def formValueOf (tag : String) (attributes : List Attribute) : Option String :=
  if !formControls.contains (toLower tag) then none
  else
    let isToggle := attributes.any fun
      | .static name value _ => name == "type" && (value == some "checkbox" || value == some "radio")
      | _ => false
    some (if isToggle then "checked" else "value")

/-- The name of an attribute that a directive may take for itself. -/
def takenName? : Attribute → Option String
  | .static name _ _ => some name
  | .property name _ _ _ _ => some name
  | .event name _ _ _ => some name
  | .twoWay name _ _ => some name
  | .reference .. => none
  | .directive name _ _ _ _ _ => some name

/-- The target of a link as one text. -/
def linkTarget (code : String) : String :=
  if code.startsWith "[" then code ++ ".join('/')" else code

/-- Adds one attribute, unless a custom directive takes it. -/
def addAttribute (env : TemplateEnv) (s : Scope) (isComponent : Bool) (formValue : Option String)
    (consumed : List String) (e : ElementParts) (attr : Attribute) : Converting ElementParts := do
  if ((takenName? attr).map consumed.contains).getD false then return e
  match attr with
  | .static name value p =>
      if name == "routerLink" then return { e with link := some (quoteText (value.getD "")) }
      else if name == "routerLinkActive" then return { e with activeClass := value }
      else return { e with bag := ← e.bag.static name value p isComponent }
  | .property name _ value p _ =>
      let code ← s.boundAt env value p
      if name == "ngSwitch" then return { e with switch := some code }
      else if name == "routerLink" then return { e with link := some (linkTarget code) }
      else return { e with bag := e.bag.property name code isComponent formValue }
  | .event name handler p twoWay =>
      let isModel := name == "ngModelChange"
      let event := if isModel && isComponent then "valueChange" else name
      let twoWay := twoWay || (isModel && (isComponent || present formValue))
      let h ← Handler.ofBinding env.names s.locals event handler p twoWay isComponent
        (if isModel then formValue else none)
      return { e with bag := e.bag.addHandler h }
  | .reference name _ p =>
      match (← get).elementRefs.get? name with
      | some ref =>
          if s.inLoop then
            Converting.warnAt
              s!"Template reference #{name} inside *ngFor refers to the last item only" p
          return { e with bag := { e.bag with ref := some ref } }
      | none => return e
  | .directive name expression value p isBound resolved =>
      if present resolved then return e
      else return { e with bag := ← e.bag.builtinDirective env s name expression value p isBound }
  | .twoWay .. => return e

/-- The tag and properties of a link: an anchor becomes a router link, any other element navigates
when it is clicked. -/
def applyLink (tag : String) (isComponent : Bool) (e : ElementParts) :
    Converting (String × PropBag) := do
  match e.link with
  | none => return (tag, e.bag)
  | some link =>
      if tag == "a" then
        let component := if present e.activeClass then "NavLink" else "Link"
        Converting.router [component]
        return (component, { e.bag with attrs := { name := "to", value := some link } :: e.bag.attrs })
      else if isComponent then
        Converting.warn s!"routerLink on component <{tag}> is not converted"
        return (tag, e.bag)
      else
        Converting.uses "navigate"
        return (tag, e.bag.addHandler
          (some { prop := "onClick", param := "event", statements := [s!"navigate({link})"] }))

/-- The tag of an element before links and wrappers, and whether it is a generated component. -/
def elementTag (env : TemplateEnv) (tag : String) (component : Option String) :
    Converting (String × Bool) := do
  match if present component then env.index.lookup (component.getD "") else none with
  | some symbol =>
      let name := Naming.componentName symbol.name
      Converting.imports fun i => i.defaultOf (.component symbol.name symbol.unit) name
      return (name, true)
  | none =>
      if tag == "router-outlet" then
        Converting.router ["Outlet"]
        return ("Outlet", false)
      else return (tag, false)

/-- A converted start tag. -/
structure StartTag where
  tag : String
  bag : PropBag
  activeClass : Option String
  switch : Option String
  deriving Inhabited

/-- Converts the start tag of an element. -/
def startTag (env : TemplateEnv) (s : Scope) (sourceTag : String) (attributes : List Attribute)
    (component : Option String) : Converting StartTag := do
  let (tag, isComponent) ← elementTag env sourceTag component
  let uses ← Noting.lift (directiveUses env.index 0 [] attributes)
  let formValue := if isComponent then none else formValueOf sourceTag attributes
  let e ← attributes.foldlM (addAttribute env s isComponent formValue (uses.flatMap (·.names))) {}
  let (tag, bag) ← applyLink tag isComponent e
  let (bag, wrappers) ← applyEach env s sourceTag tag isComponent attributes bag uses
  let tag ← wrappedTag tag isComponent wrappers
  return { tag, bag, activeClass := if tag == "NavLink" then e.activeClass else none
           switch := e.switch }

end ReactMigration
