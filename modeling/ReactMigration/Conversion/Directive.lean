import ReactMigration.Conversion.Component

/-!
Directives.  One that only touches its host becomes a hook on a ref to the host, one that renders
markup becomes a wrapper of components, and a structural one becomes a component that decides
whether to call its `render` prop.
-/

namespace ReactMigration

open ReactMigration.Text

/-- The ref to the host element. -/
def directiveHost : String := "hostRef"

/-- The statement that applies a host binding to the host element. -/
def hostBindingStatement (target value : String) : String :=
  let (kind, rest) := splitFirst "." target
  let (name, unit) := splitFirst "." rest
  let prop := if name.toList.contains '-' then Naming.camelCase name else name
  if kind == "class" && rest != "" then
    s!"element.classList.toggle('{rest}', Boolean({value}));"
  else if kind == "style" && rest != "" then
    if unit != "" then
      s!"element.style.{prop} = {value} == null ? '' : " ++ "\x60$\x7b" ++ value ++ "\x7d" ++ unit ++
        "\x60;"
    else s!"element.style.{prop} = {value} ?? '';"
  else if kind == "attr" && rest != "" then
    s!"if ({value} == null) element.removeAttribute('{rest}'); " ++
      s!"else element.setAttribute('{rest}', String({value}));"
  else s!"(element as any).{target} = {value};"

/-- The option of an input. -/
def inputOption (i : InputProp) : PropField :=
  { name := i.publicName, type := inputType i, optional := true, default := i.default
    binding := if i.publicName != i.name then some i.name else none }

/-- The option of an output: a callback that does nothing by default. -/
def outputOption (texts : List String) (o : OutputProp) : PropField :=
  { outputProp texts o with optional := true, default := some "() => undefined" }

/-- The effect that applies all host bindings. -/
def hostBindingsEffect (names : RecastContext) (bindings : List HostBinding) :
    Converting (List EffectDecl) := do
  if bindings.isEmpty then return []
  let statements ← bindings.mapM fun b => do
    return hostBindingStatement b.target (← Converting.expression names [] b.member)
  let head := [s!"const element = {directiveHost}.current;", "if (!element) return;"]
  return [{ body := unlines (head ++ statements), comment := some "host bindings" }]

/-- Fills the draft's body with the members of a directive. -/
def draftDirective (order : NameOrder) (m : DirectiveModel) : Converting Unit := do
  let elementRefs := injectedElements m.toModelBase fun _ => directiveHost
  let names := Members.context order m.toModelBase (m.inputs.map (·.name))
    (outputCallbacks m.outputs) elementRefs
  Members.convert m.toModelBase names
  let listeners ← Members.listenerEffects names (some directiveHost) m.hostListeners
  let bindings ← hostBindingsEffect names m.hostBindings
  Converting.modifyBody fun b => { b with effects := b.effects ++ listeners ++ bindings }
  if !(← get).body.effects.isEmpty then Converting.react ["useEffect"]
  Members.dependencyHooks m.toModelBase elementRefs [directiveHost]

/-- The options of a directive. -/
def directiveFields (m : DirectiveModel) : List PropField :=
  m.inputs.map inputOption ++ m.outputs.map (outputOption (emittingTexts m.toModelBase))

/-- The reference of a directive's module. -/
def directiveRef (m : DirectiveModel) : ArtifactRef :=
  .directive m.name m.sourcePath m.directiveKind m.rendersMarkup

/-- A directive as a hook. -/
def directiveHook (index : SymbolIndex) (order : NameOrder) (m : DirectiveModel) :
    Noting HookArtifact := do
  let work : Converting Unit := do
    Converting.imports fun i =>
      (i.carry index m.sourcePath m.sourceImports).reactType "RefObject"
    draftDirective order m
  let (_, d) ← work.run {}
  let options := directiveFields m
  return { ref := directiveRef m, name := Naming.directiveHookName m.name
           params := [{ name := directiveHost, type := some "RefObject<HTMLElement | null>" }]
           imports := d.imports, body := d.body
           returns := (m.methods.filter (·.isPublic)).map (·.name), options
           optionsType := if options.isEmpty then none
             else some (Naming.componentName m.name ++ "Options") }

/-- A directive as a wrapper of components. -/
def directiveWrapper (index : SymbolIndex) (order : NameOrder) (m : DirectiveModel) :
    Noting ComponentArtifact := do
  let work : Converting Unit := do
    Converting.imports fun i =>
      ((i.carry index m.sourcePath m.sourceImports).reactType "ElementType").react ["useRef"]
    draftDirective order m
  let (_, d) ← work.run {}
  let host : RefDecl := { name := directiveHost, initial := some "null", type := some "HTMLElement" }
  return { ref := directiveRef m, name := Naming.directiveWrapperName m.name
           props := directiveFields m, imports := d.imports
           body := { d.body with refs := host :: d.body.refs }
           markup := some (.element "Wrapped" [{ name := "ref", value := some directiveHost },
             { name := "rest", value := some "rest", spread := true }] [])
           wrapper := true, test := false }

/-- A structural directive as a component. -/
def structuralDirective (m : DirectiveModel) : ComponentArtifact :=
  let prop (i : InputProp) : PropField :=
    { name := i.publicName, type := inputType i, optional := some i.publicName != m.attr
      default := i.default }
  let shown := Markup.expression "render()"
  { ref := directiveRef m, name := Naming.componentName m.name
    props := m.inputs.map prop ++ [{ name := "render", type := "() => ReactNode" }]
    imports := Imports.reactType [] "ReactNode"
    markup := some (match m.condition with
      | some condition => .conditional condition shown none
      | none => shown)
    test := false }

/-- A directive. -/
def convertDirective (index : SymbolIndex) (order : NameOrder) (m : DirectiveModel) :
    Noting (List Artifact) := do
  if m.directiveKind == .structural then return [.component (structuralDirective m)]
  else if m.rendersMarkup then return [.component (← directiveWrapper index order m)]
  else return [.hook (← directiveHook index order m)]

end ReactMigration
