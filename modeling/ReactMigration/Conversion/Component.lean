import ReactMigration.Conversion.Members
import ReactMigration.Conversion.Regions

/-!
Components: inputs become props, outputs become callback props, projected content becomes the
`children` prop, members become the function body and the template becomes its markup.
-/

namespace ReactMigration

open ReactMigration.Text

/-! ### Props -/

/-- A member path. -/
def memberPath : Pattern :=
  let part : Pattern := .one Pattern.isNameStart ++ .many Pattern.isName 0 true
  .first ++ part ++ .star (.opt (.text "?") ++ .text "." ++ part) ++ .last

/-- The last name of a member path. -/
def lastName (path : String) : String :=
  ((Pattern.opt (.text "?") ++ .text ".").split path).getLast?.getD ""

/-- Words that cannot name a parameter. -/
def notNames : List String :=
  ["this", "true", "false", "null", "undefined"]

/-- The name that an emitted argument suggests. -/
def argumentName? (argument : String) : Option String :=
  let argument := (.first ++ .text "this." : Pattern).replace "" (trim argument)
  if (memberPath.lead? argument).isSome then
    let name := lastName argument
    if notNames.contains name then none else some name
  else none

/-- A name for the parameter of an output's callback: the first suggested by an argument emitted in
the texts. -/
def emittedParameter (output : String) (texts : List String) : Option String :=
  let emit := Pattern.notAfter Pattern.isName ++ .opt (.text "this.") ++ .text (output ++ ".emit(")
  texts.findSome? fun text => (emit.findAll text).findSome? fun m =>
    match Recast.enclosed? '(' m.rest.after with
    | some (inner, _) => argumentName? (String.ofList inner)
    | none => none

/-- The type of an output's callback. -/
def callbackType (o : OutputProp) (texts : List String) : String :=
  if o.payloadType == "" || o.payloadType == "void" || o.payloadType == "undefined" then "() => void"
  else
    let param := (emittedParameter o.name texts).getD ""
    "(" ++ (if param == "" then "value" else param) ++ ": " ++ o.payloadType ++ ") => void"

/-- The type of an input. -/
def inputType (i : InputProp) : String :=
  if i.type == "" then "any" else i.type

/-- The prop of an input; an alias is bound back to the field's name. -/
def inputProp (i : InputProp) : PropField :=
  { name := i.publicName, type := inputType i, optional := i.optional || i.default.isSome
    default := i.default
    binding := if present i.outerName && i.outerName != some i.name then some i.name else none }

/-- The callback prop of an output. -/
def outputProp (texts : List String) (o : OutputProp) : PropField :=
  { name := Naming.callbackPropName o.publicName, type := callbackType o texts }

/-- The callback of each output. -/
def outputCallbacks (outputs : List OutputProp) : Table String :=
  outputs.foldl (fun t o => t.set o.name (Naming.callbackPropName o.publicName)) []

mutual

/-- The event handlers in a node, in order. -/
def nodeHandlers : Template.Node → List String
  | .element _ attributes children _ _ _ => attributeHandlers attributes ++ templateHandlers children
  | .container _ attributes children _ => attributeHandlers attributes ++ templateHandlers children
  | .structural _ _ _ child _ _ => nodeHandlers child
  | _ => []

/-- The event handlers in nodes, in order. -/
def templateHandlers : List Template.Node → List String
  | [] => []
  | n :: ns => nodeHandlers n ++ templateHandlers ns

/-- The event handlers among attributes. -/
def attributeHandlers : List Template.Attribute → List String
  | [] => []
  | .event _ handler _ _ :: rest => handler :: attributeHandlers rest
  | _ :: rest => attributeHandlers rest

end

/-- Texts in which events are emitted: methods, then effects. -/
def emittingTexts (m : ModelBase) : List String :=
  m.methods.map (·.body) ++ m.effects.map (·.body)

/-! ### Components -/

/-- Puts a ref to the host element on the root element. -/
def attachHost (name host : String) (markup : Option Markup) : Converting (Option Markup) := do
  let isPlain (tag : String) : Bool := (tag.toList.head?.map isLowerCase).getD false
  match markup with
  | some (.element tag attrs children) =>
      if isPlain tag then
        if attrs.any (·.name == "ref") then
          Converting.warn (s!"Root element of {name} already carries a template reference; " ++
            "the host element ref is not attached")
          return markup
        else return some (.element tag ({ name := "ref", value := some host } :: attrs) children)
      else noRoot
  | _ => noRoot
where
  /-- Notes that no single element can carry the ref. -/
  noRoot : Converting (Option Markup) := do
    Converting.warn s!"{name} uses its host element but its template has no single root element"
    return markup

/-- The ref to the host element: an injected one, or one made for listeners on the host. -/
def hostRef (m : ComponentModel) (elementRefs : Table String) : Converting (Option String) := do
  match elementRefs.values.head? with
  | some host => return some host
  | none =>
      if m.hostListeners.any fun l => !l.event.toList.contains ':' then
        Converting.modifyBody fun b =>
          { b with refs := b.refs ++
              [{ name := "hostRef", initial := some "null", type := some "HTMLElement" }] }
        Converting.react ["useRef"]
        return some "hostRef"
      else return none

/-- The refs that stand for injected host elements. -/
def injectedElements (m : ModelBase) (refOf : String → String) : Table String :=
  (m.dependencies.filter (·.typeName == "ElementRef")).foldl
    (fun t d => t.set d.name (refOf d.name)) []

/-- Fills the draft of a component and gives its props and markup. -/
def draftComponent (index : SymbolIndex) (order : NameOrder) (m : ComponentModel) :
    Converting (List PropField × Option Markup) := do
  Converting.imports fun i => i.carry index m.sourcePath m.sourceImports
  let texts := emittingTexts m.toModelBase ++ templateHandlers m.template
  let props := m.inputs.map inputProp ++ m.outputs.map (outputProp texts)
  let children : List PropField :=
    if m.projectsContent then [{ name := "children", type := "ReactNode", optional := true }] else []
  if m.projectsContent then Converting.imports fun i => i.reactType "ReactNode"
  let elementRefs := injectedElements m.toModelBase id
  let names := Members.context order m.toModelBase (m.inputs.map (·.name))
    (outputCallbacks m.outputs) elementRefs
  Members.convert m.toModelBase names
  let env : TemplateEnv := { index, names, refs := m.templateRefs, viewChildren := m.viewChildren }
  let markup ← if m.templateError.isSome then pure none else convertTemplate env m.template
  let host ← hostRef m elementRefs
  let listeners ← Members.listenerEffects names host m.hostListeners
  Converting.modifyBody fun b => { b with effects := b.effects ++ listeners }
  if !(← get).body.effects.isEmpty then Converting.react ["useEffect"]
  let markup ←
    match host with
    | some host => attachHost m.name host markup
    | none => pure markup
  Members.dependencyHooks m.toModelBase elementRefs []
  if !(← get).body.memos.isEmpty then Converting.react ["useMemo"]
  return (props ++ children, markup)

/-- A component, followed by its stylesheet if it has styles. -/
def convertComponent (index : SymbolIndex) (order : NameOrder) (m : ComponentModel) :
    Noting (List Artifact) := do
  let ((props, markup), d) ← (draftComponent index order m).run {}
  let name := Naming.componentName m.name
  let style := ArtifactRef.style m.name m.sourcePath
  let styled := !m.styles.isEmpty
  let component : ComponentArtifact :=
    { ref := .component m.name m.sourcePath, name, props, markup, body := d.body
      imports := if styled then d.imports.sideEffect style else d.imports
      moduleConstants := d.moduleConstants
      stubReason := m.templateError.map ("Template could not be parsed: " ++ ·)
      stubSource := if m.templateError.isSome then m.templateSource else none
      styleRef := if styled then some style else none }
  return .component component ::
    if styled then [.style { ref := style, name, styles := m.styles }] else []

/-- The stand-in for a component that could not be converted, with the same props. -/
def componentStub (m : StubModel) : Artifact :=
  .component
    { ref := .component m.name m.sourcePath, name := Naming.componentName m.name
      props := m.inputs.map inputProp ++ m.outputs.map (outputProp [])
      stubReason := some m.reason
      stubSource := if m.sourceText == "" then none else some m.sourceText }

end ReactMigration
