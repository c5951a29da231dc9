import ReactMigration.Model.Effects
import ReactMigration.Model.TemplateScope

/-!
Building the model of a declaration against the sealed index.  A name that does not resolve becomes
a diagnostic.
-/

namespace ReactMigration.Model

open ReactMigration.Text

/-- Why a declaration needs manual work: change detection by hand beside the change callback. -/
def reviewReason? (d : DeclBase) (inputs : List InputProp) : Option String :=
  if !d.lifecycleHooks.contains "ngOnChanges" then none
  else
    let diffing :=
      (if d.lifecycleHooks.contains "ngDoCheck" then ["ngDoCheck"] else []) ++
      (inputs.filter (·.isSetter)).map (fun i => "@Input() set " ++ i.name) ++
      (d.dependencies.filter fun dep => Framework.differs.contains (baseType dep.typeName)).map
        (·.typeName)
    let listed := ", ".intercalate diffing
    if diffing.isEmpty then none
    else some (s!"{d.name} combines ngOnChanges with manual input diffing " ++
      s!"({listed}); generated as a stub for manual review")

/-- Resolves a dependency: a framework class, a known service, or neither. -/
def resolveDependency (index : SymbolIndex) (owner : String) (dep : Dependency) :
    Noting Injected := do
  let base := baseType dep.typeName
  let typeName :=
    if (base == "any" || base == "unknown") && present dep.token then dep.token.getD "" else base
  let injected (kind : InjectedKind) : Injected :=
    { name := dep.name, typeName, kind, optional := dep.optional }
  if Framework.isProvider typeName then
    if Framework.unsupportedProviders.contains typeName then
      Noting.warn .unsupportedConstruct
        s!"{typeName} injected into {owner} has no React equivalent"
    return injected .builtin
  match index.lookup typeName with
  | some s =>
      if s.kind == .service then
        return { injected .service with target := some s.name, targetUnit := some s.unit }
      else missing injected
  | none => missing injected
where
  /-- Notes that nothing provides the dependency. -/
  missing (injected : InjectedKind → Injected) : Noting Injected := do
    unresolved (s!"Dependency '{dep.name}' of type '{dep.typeName}' in {owner} " ++
      "does not resolve to a known service")
    return injected .unresolved

/-- Resolves all dependencies. -/
def resolveDependencies (index : SymbolIndex) (d : DeclBase) : Noting (List Injected) :=
  d.dependencies.mapM (resolveDependency index d.name)

/-- The model's common part before anything is resolved. -/
def emptyBase (d : DeclBase) : ModelBase :=
  { name := d.name, sourcePath := d.sourcePath, sourceImports := d.sourceImports }

/-- The names of inputs that setters receive. -/
def setterNames (inputs : List InputProp) : List String :=
  (inputs.filter (·.isSetter)).map (·.name)

/-- The model of a unit that needs manual work. -/
def reviewStub (d : DeclBase) (kind : UnitKind) (reason : String) (inputs : List InputProp)
    (outputs : List OutputProp) : Noting UnitModel := do
  Noting.warn .manualReviewRequired reason
  return .stub { name := d.name, sourcePath := d.sourcePath, unitKind := some kind, reason, inputs,
                 outputs }

/-- The ref cells that template references fill, a later field winning. -/
def viewChildrenOf (fields : List FieldDecl) (refs : List String) : Table String :=
  refs.foldl (fun t name =>
    fields.foldl (fun (t : Table String) f =>
      match (viewQuery? f).bind fun q => q.args.head? with
      | some (.str s) => if s == name then t.set name f.name else t
      | _ => t) t) []

/-- A component. -/
def buildComponent (index : SymbolIndex) (d : ComponentDecl) : Noting UnitModel := do
  d.missingResources.forM fun path =>
    unresolved s!"Resource '{path}' referenced by {d.name} was not found"
  match reviewReason? d.toDeclBase d.inputs with
  | some reason => reviewStub d.toDeclBase .component reason d.inputs d.outputs
  | none =>
      let (nodes, scope) ←
        match d.templateError with
        | some f => do
            modify fun s => s.record f
            pure ([], {})
        | none => (linkNodes index d.templateNodes).run {}
      let base := { emptyBase d.toDeclBase with
        dependencies := ← resolveDependencies index d.toDeclBase }
      let base := classifyFields d.toDeclBase base scope.mutated
      let base ← collectMethods d.toDeclBase (setterNames d.inputs) base
      let base := { base with effects := ← lifecycleEffects d.toDeclBase d.inputs }
      return .component { base with
        selector := d.selector
        inputs := d.inputs
        outputs := d.outputs
        template := nodes
        templateRefs := scope.refs
        hostListeners := d.hostListeners
        styles := d.styles
        projectsContent := scope.projectsContent
        templateError := d.templateError.map (·.message)
        templateSource := if d.templateError.isSome then d.template else none
        viewChildren := viewChildrenOf d.fields scope.refs.keys }

/-- A service. -/
def buildService (index : SymbolIndex) (d : ServiceDecl) : Noting UnitModel := do
  let base := { emptyBase d.toDeclBase with
    dependencies := ← resolveDependencies index d.toDeclBase }
  let base ← collectMethods d.toDeclBase [] (classifyFields d.toDeclBase base [])
  return .service { base with effects := ← lifecycleEffects d.toDeclBase [] }

/-- A pipe. -/
def buildPipe (index : SymbolIndex) (d : PipeDecl) : Noting UnitModel := do
  match d.transform with
  | none => throw (.absentValue "name")
  | some transform =>
      let base := { emptyBase d.toDeclBase with
        dependencies := ← resolveDependencies index d.toDeclBase }
      (base.dependencies.filter (·.kind == .service)).forM fun dep =>
        Noting.warn .unsupportedConstruct
          (s!"Pipe {d.name} injects {dep.typeName}; the generated function " ++
            "receives it as an extra argument")
      let base ← collectMethods d.toDeclBase ["transform"] (classifyFields d.toDeclBase base [])
      return .pipe { base with
        pipeName := d.pipeName, pure := d.pure, transform := some (methodModel transform) }

/-- A condition under which a structural directive shows its region. -/
def embedPattern : Pattern :=
  let inside := fun c : Char => c != '\x7b' && c != '\x7d'
  .text "if" ++ .blanks ++ .text "(" ++
    .group 1 (.many (fun c => inside c && c != ';') 1 true) ++ .text ")" ++ .blanks ++
    .text "\x7b" ++ .many inside 0 true ++ .text "createEmbeddedView"

/-- The condition of a structural directive in terms of its attribute: the terms that do not track
the view itself. -/
def structuralCondition? (d : DeclBase) (attr : Option String) : Option String := do
  let name ← attr.filter (· ≠ "")
  let setter ← d.method? name
  if setter.accessor != some .set then none
  else
    let param ← setter.params.head?
    let m ← embedPattern.find? setter.body
    let terms := ((Pattern.text "&&").split (m.group 1)).map trim
    let kept := terms.filter (!occursIn "this." ·)
    if kept.isEmpty then none
    else some ((.boundary ++ .text param.name ++ .boundary : Pattern).replace name
      (" && ".intercalate kept))

/-- A directive. -/
def buildDirective (index : SymbolIndex) (d : DirectiveDecl) : Noting UnitModel := do
  match reviewReason? d.toDeclBase d.inputs with
  | some reason => reviewStub d.toDeclBase .directive reason d.inputs d.outputs
  | none =>
      let attr := (parseSelector d.selector).2.head?
      if attr.isNone then
        Noting.warn .unsupportedConstruct
          s!"Directive {d.name} has no attribute selector and cannot be applied"
      let base := { emptyBase d.toDeclBase with
        dependencies := ← resolveDependencies index d.toDeclBase }
      let base := classifyFields d.toDeclBase base []
      let finish (base : ModelBase) (condition : Option String) : UnitModel :=
        .directive { base with
          selector := d.selector, attr, directiveKind := d.directiveKind, inputs := d.inputs
          outputs := d.outputs, hostListeners := d.hostListeners, hostBindings := d.hostBindings
          rendersMarkup := d.rendersMarkup, condition }
      if d.directiveKind == .structural then
        let condition := structuralCondition? d.toDeclBase attr
        if condition.isNone then
          Noting.warn .unsupportedConstruct
            (s!"Could not derive the render condition of structural directive {d.name}; " ++
              "the region always renders")
        return finish base condition
      else
        let base ← collectMethods d.toDeclBase (setterNames d.inputs) base
        let base := { base with effects := ← lifecycleEffects d.toDeclBase d.inputs }
        return finish base none

mutual

/-- Notes the route components that are not known. -/
def checkRoute (index : SymbolIndex) : RouteDecl → Noting Unit
  | .mk path component _ _ children _ _ _ => do
      match component with
      | some name =>
          if name != "" && (index.lookup name).all (·.kind != .component) then
            unresolved s!"Route '{path}' refers to unknown component {name}"
      | none => pure ()
      checkRoutes index children

/-- Notes the components of routes, children included, that nothing declares. -/
def checkRoutes (index : SymbolIndex) : List RouteDecl → Noting Unit
  | [] => pure ()
  | r :: rs => do
      checkRoute index r
      checkRoutes index rs

end

/-- The routes of a declaration in the index of route tables. -/
def routesOf (s : Symbol) : List RouteDecl :=
  match s.declaration with
  | .routes d => d.routes
  | _ => []

/-- A module. -/
def buildModule (index : SymbolIndex) (d : ModuleDecl) : Noting UnitModel := do
  let found ← d.providers.mapM fun provider => do
    match (index.lookup provider).filter (·.kind == .service) with
    | some s =>
        return [{ name := provider, typeName := provider, kind := .service, target := some s.name,
                  targetUnit := some s.unit : Injected }]
    | none =>
        unresolved s!"Provider '{provider}' of {d.name} does not resolve to a known service"
        return []
  d.declarations.forM fun name =>
    if (index.lookup name).isSome then pure ()
    else unresolved s!"Declaration '{name}' of {d.name} was not found in the input set"
  let (routes, unit) ←
    match d.routeSource.filter (· ≠ "") with
    | none => pure (d.routes, none)
    | some name =>
        match index.routeTable name with
        | none => do
            unresolved s!"Route table '{name}' used by {d.name} was not found"
            pure (d.routes, none)
        | some table =>
            pure (routesOf table, if table.unit != d.sourcePath then some table.unit else none)
  checkRoutes index routes
  return .module { emptyBase d.toDeclBase with
    providers := found.flatten, declarations := d.declarations, routes, isRouting := d.isRouting
    routeTableUnit := unit }

/-- The model of a declaration. -/
def build (index : SymbolIndex) : Declaration → Noting UnitModel
  | .component d => buildComponent index d
  | .service d => buildService index d
  | .pipe d => buildPipe index d
  | .directive d => buildDirective index d
  | .module d => buildModule index d
  | .routes d => do
      checkRoutes index d.routes
      return .routeTable { emptyBase d.toDeclBase with routes := d.routes }

end ReactMigration.Model
