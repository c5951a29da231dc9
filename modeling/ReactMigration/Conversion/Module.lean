import ReactMigration.Conversion.Draft

/-!
Modules become contexts whose provider calls the hooks of the provided services; routes become a
table of route objects.
-/

namespace ReactMigration

open ReactMigration.Text

/-- The name of a value that a context provides, with the hook call that makes it. -/
def contextProvider (dep : Injected) : ConstDecl :=
  let target := dep.target.getD ""
  let hook := Naming.serviceHookName target
  { name := Naming.camelCase target, value := hook ++ "()", type := some s!"ReturnType<typeof {hook}>" }

/-- The context of a module. -/
def moduleContext (index : SymbolIndex) (m : ModuleModel) : ContextArtifact :=
  let (name, provider, hook) := Naming.contextNames m.name
  let start := (Imports.react [] ["createContext", "useContext", "useMemo"]).reactType "ReactNode"
  let imports := m.providers.foldl (fun (i : Imports) dep =>
    let target := dep.target.getD ""
    i.named (.service target (dep.targetUnit.getD "")) (Naming.serviceHookName target)) start
  let declared := (m.declarations.filter fun d => (index.lookup d).isSome).map Naming.componentName
  { ref := .context m.name m.sourcePath, name, provider, hook, imports
    providers := m.providers.map contextProvider
    comment := if declared.isEmpty then none
      else some ("Declarations: " ++ ", ".intercalate declared) }

/-! ### Routes -/

/-- The component that a route renders, if it is known. -/
def routeComponent? (index : SymbolIndex) (name : String) : Option Symbol :=
  (index.lookup name).filter (·.kind == .component)

/-- Where a redirecting route leads; at the top a relative target is taken from the root. -/
def redirectTarget (top : Bool) (target : String) : String :=
  if top && !target.startsWith "/" then "/" ++ target else target

/-- What is noted about a guard. -/
def guardNote (path guard : String) : Converting String := do
  let (key, name) := splitFirst ":" guard
  Converting.warn s!"Route {key} {name} on '{path}' is not converted"
  return s!"{key}: {name} is not converted"

mutual

/-- Converts a route. -/
def routeEntry (index : SymbolIndex) (top : Bool) : RouteDecl → Converting RouteEntry
  | .mk path component redirectTo _ children loadChildren guards title => do
      let redirect := redirectTo.map (redirectTarget top)
      if redirect.isSome then Converting.router ["Navigate"]
      let (element, missing) ←
        match component.filter (· ≠ "") with
        | none => pure (none, [])
        | some name =>
            match routeComponent? index name with
            | some symbol => do
                let element := Naming.componentName symbol.name
                Converting.imports fun i =>
                  i.defaultOf (.component symbol.name symbol.unit) element
                pure (some element, [])
            | none => pure (none, [s!"component {name} was not found"])
      let lazy ←
        match loadChildren.filter (· ≠ "") with
        | none => pure []
        | some loader => do
            Converting.warn s!"Lazy route '{path}' (loadChildren) is not converted"
            pure [s!"loadChildren: {loader} is not converted"]
      let guarded ← guards.mapM (guardNote path)
      let titled := (title.filter (· ≠ "")).toList.map ("title: " ++ ·)
      let entries ← routeEntries index children
      let notes := missing ++ lazy ++ guarded ++ titled
      let shownPath := if path == "**" then "*" else path
      let isIndex := shownPath == "" && entries.isEmpty
      return .mk (if shownPath == "" then none else some shownPath) isIndex element redirect entries
        (if notes.isEmpty then none else some ("; ".intercalate notes))

/-- Converts the children of a route. -/
def routeEntries (index : SymbolIndex) : List RouteDecl → Converting (List RouteEntry)
  | [] => return []
  | r :: rs => do
      let entry ← routeEntry index false r
      let entries ← routeEntries index rs
      return entry :: entries

end

/-- The module of a table of routes with a name stem. -/
def routeModule (index : SymbolIndex) (base sourcePath : String) (routes : List RouteDecl) :
    Noting Artifact := do
  let (name, table) := Naming.routesNames base
  let work : Converting (List RouteEntry) := do
    Converting.imports fun i => (i.router ["useRoutes"]).add
      { names := ["RouteObject"], module := some "react-router-dom", typeOnly := true }
    routes.mapM (routeEntry index true)
  let (entries, d) ← work.run {}
  return .routes { ref := .routes base sourcePath, name, table, imports := d.imports
                   routes := entries }

/-- A module: a context, unless it only declares routes, and its routes, unless another unit declares
them. -/
def convertModule (index : SymbolIndex) (m : ModuleModel) : Noting (List Artifact) := do
  let context : List Artifact :=
    if !m.isRouting || !m.providers.isEmpty || !m.declarations.isEmpty then
      [.context (moduleContext index m)]
    else []
  let routes ←
    if m.isRouting && m.routeTableUnit.isNone then do
      pure [← routeModule index (Naming.moduleBaseName m.name) m.sourcePath m.routes]
    else pure []
  return context ++ routes

/-- A unit of routes. -/
def convertRouteTable (index : SymbolIndex) (m : RouteTableModel) : Noting (List Artifact) := do
  return [← routeModule index (Naming.routeBaseName m.sourcePath) m.sourcePath m.routes]

end ReactMigration
