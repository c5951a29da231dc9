import ReactMigration.Declaration.Members
import ReactMigration.Template.Parser
import ReactMigration.Text.Path

/-!
Reading a classified unit into its declaration: decorator metadata, members, imports and, for
components, template and styles.
-/

namespace ReactMigration.Declaration

open ReactMigration.Text
open ReactMigration.TypeScript (Source Node)

/-- Texts of resource files by path; nothing for a file that cannot be read. -/
abbrev Resources := Table (Option String)

/-! ### Imports -/

/-- The names an import clause binds, added to an import. -/
def addImportPart (s : Source) (d : ImportDecl) (part : Node) : ImportDecl :=
  match part.kind with
  | .identifier => { d with default := some (s.text part) }
  | .namespaceImport => { d with whole := some (s.textOf (part.childOf? [.identifier])) }
  | .namedImports =>
      { d with names := d.names ++ (part.childrenOf .importSpecifier).map fun spec =>
          s.textOf ((spec.inRole? .newName).orElse fun _ => spec.inRole? .name) }
  | _ => d

/-- The top-level imports in order. -/
def importsOf (s : Source) (root : Node) : List ImportDecl :=
  root.children.filterMap fun n =>
    if n.kind == .importStatement then
      (n.inRole? .source).map fun source =>
        let parts := ((n.childOf? [.importClause]).map (·.namedChildren)).getD []
        parts.foldl (addImportPart s) { module := Metadata.inner (s.text source) }
    else none

/-! ### Metadata -/

/-- The metadata object of a unit's decorator. -/
def metadataOf (u : SourceUnit) (kind : UnitKind) (s : Source) (d : Node) :
    Except Failure Metadata := do
  let refuse (message : String) : Failure :=
    .finding { kind := .declaration, message, unit := u.path
               line := some (s.row d.start + 1 : Nat)
               column := some (s.column d.start + 1 : Nat) }
  if d.hasError then
    let shown := String.ofList ((s.text d).toList.take 60)
    throw (refuse s!"Unparsable decorator metadata: {quoted shown}")
  match TypeScript.decoratorArguments? d with
  | none => throw (refuse "Decorator is not called")
  | some [] =>
      if kind == .service || kind == .module || kind == .directive then return .dict []
      throw (refuse "Decorator metadata is missing")
  | some (first :: _) =>
      match Metadata.ofNode s first with
      | .dict members => return .dict members
      | _ => throw (refuse "Decorator metadata is not an object literal")

/-- Splits `name: outer name`. -/
def splitBindingEntry (entry : String) : String × Option String :=
  let (name, outerName) := splitFirst ":" entry
  let outerName := trim outerName
  (trim name, if outerName == "" then none else some outerName)

/-- The inputs listed in the metadata. -/
def metadataInputs (m : Metadata) : Except Fault (List InputProp) := do
  let entries ← (m.get "inputs").several
  return entries.filterMap fun entry =>
    match entry with
    | .str e =>
        let (name, outerName) := splitBindingEntry e
        some { name, optional := true, outerName }
    | .dict _ =>
        (entry.get "name").str?.map fun name =>
          let required :=
            match entry.get "required" with
            | .bool b => b
            | _ => false
          { name, optional := !required, outerName := (entry.get "alias").str? }
    | _ => none

/-- The outputs listed in the metadata. -/
def metadataOutputs (m : Metadata) : Except Fault (List OutputProp) := do
  let entries ← (m.get "outputs").several
  return entries.filterMap fun entry =>
    match entry with
    | .str e =>
        let (name, outerName) := splitBindingEntry e
        some { name, outerName }
    | _ => none

/-- A listener written as `handler(args)`. -/
def listenerOf (event value : String) : HostListener :=
  let (handler, rest) := splitFirst "(" value
  let inside := String.ofList (dropTrailing (· == ')') rest.toList)
  { event, handler := trim handler, args := ((splitAt ',' inside).map trim).filter (· ≠ "") }

/-- The listeners and bindings of the host element in the metadata. -/
def hostMetadata (m : Metadata) : List HostListener × List HostBinding :=
  match m.get "host" with
  | .dict members =>
      let within (opening closing key : String) := key.startsWith opening && key.endsWith closing
      (members.filterMap fun (key, value) =>
        match value with
        | .str v => if within "(" ")" key then some (listenerOf (Metadata.inner key) v) else none
        | _ => none,
       members.filterMap fun (key, value) =>
        match value with
        | .str v =>
            if within "[" "]" key && !within "(" ")" key then some ⟨Metadata.inner key, v⟩ else none
        | _ => none)
  | _ => ([], [])

/-! ### Routes -/

/-- The name a lazily loaded module is taken by. -/
def lazyModulePattern : Pattern :=
  .text ".then(" ++ .blanks ++ .opt (.text "(") ++ .blanks ++ .group 1 .word ++ .blanks ++
    .opt (.text ")") ++ .blanks ++ .text "=>" ++ .blanks ++ .again 1 ++ .text "." ++ .group 2 .word

/-- The guards listed under one key of a route. -/
def guardsOf (data : Metadata) (key : String) : List String :=
  match data.get key with
  | .list guards => guards.map fun g => key ++ ":" ++ g.name
  | .dict members => members.map fun (name, _) => key ++ ":" ++ name
  | _ => []

/-- The keys of a route that list guards. -/
def guardKeys : List String :=
  ["canActivate", "canActivateChild", "canDeactivate", "canMatch", "resolve"]

/-- The first of two values that is not absent. -/
def Metadata.orElse (a b : Metadata) : Metadata :=
  if a.isEmpty then b else a

mutual

/-- A route, nested at most `fuel` deep. -/
def routeWithin : Nat → Metadata → RouteDecl
  | 0, _ => .mk "" none none none [] none [] none
  | fuel + 1, data =>
      let component :=
        match data.get "component" with
        | .expr t => some t
        | _ => none
      let load :=
        match Metadata.orElse (data.get "loadChildren") (data.get "loadComponent") with
        | .expr t =>
            match lazyModulePattern.find? t with
            | some m => some (m.group 2)
            | none => some t
        | _ => none
      .mk ((data.get "path").str?.getD "") component (data.get "redirectTo").str?
        (data.get "pathMatch").str? (routesWithin fuel (data.get "children")) load
        (guardKeys.flatMap (guardsOf data)) (data.get "title").str?

/-- The routes of a list, other values being no routes. -/
def routesWithin : Nat → Metadata → List RouteDecl
  | 0, _ => []
  | fuel + 1, .list values =>
      values.filterMap fun v =>
        match v with
        | .dict members => some (routeWithin fuel (.dict members))
        | _ => none
  | _ + 1, _ => []

end

/-- The routes of a list. -/
def routesOf (m : Metadata) : List RouteDecl :=
  routesWithin 4000 m

/-! ### Declarations -/

/-- What a class contributes to every kind of declaration. -/
def baseOf (u : SourceUnit) (name : String) (m : Members) (imports : List ImportDecl) : DeclBase where
  name := name
  sourcePath := u.path
  dependencies := m.dependencies
  methods := m.methods
  fields := m.fields
  lifecycleHooks := m.lifecycleHooks
  sourceImports := imports

/-- Resolves a resource reference against the unit's directory. -/
def resourcePath (u : SourceUnit) (url : String) : String :=
  Path.normalize (Path.join (Path.directory u.path) url)

/-- The text of a resource, or its path as missing. -/
def resourceText (resources : Resources) (u : SourceUnit) (url : String) :
    Option String × List String :=
  let path := resourcePath u url
  match resources.get? path with
  | some (some t) => (some t, [])
  | _ => (none, [path])

/-- The template of a component: written in place, or in a resource. -/
def componentTemplate (resources : Resources) (u : SourceUnit) (m : Metadata) :
    Except Failure (Option String × Option String × List String) :=
  match m.get "template" with
  | .str t => .ok (some t, none, [])
  | .none =>
      match (m.get "templateUrl").str? with
      | some url =>
          if url == "" then .ok (none, none, [])
          else
            let (t, missing) := resourceText resources u url
            .ok (t, some url, missing)
      | none => .ok (none, none, [])
  | _ => .error (.finding
      { kind := .declaration, message := "Component template is not a string literal",
        unit := u.path })

/-- A component. -/
def buildComponent (resources : Resources) (u : SourceUnit) (m : Metadata) (base : DeclBase)
    (members : Members) : Except Failure ComponentDecl := do
  let lift {α : Type} (r : Except Fault α) : Except Failure α := r.mapError .fault
  let inputs := (← lift (metadataInputs m)) ++ members.inputs
  let outputs := (← lift (metadataOutputs m)) ++ members.outputs
  let (listeners, _) := hostMetadata m
  let (template, templateUrl, missing) ← componentTemplate resources u m
  let ownStyles :=
    match m.get "styles" with
    | .str s => [s]
    | .list items => items.filterMap Metadata.str?
    | _ => []
  let urls ←
    match m.get "styleUrl" with
    | .str s => pure [s]
    | _ => do
        let items ← lift (m.get "styleUrls").several
        pure (items.filterMap Metadata.str?)
  let found := urls.map (resourceText resources u)
  let (nodes, error) ←
    match template with
    | none => pure ([], none)
    | some t =>
        match Template.parse t with
        | .ok nodes => pure (nodes, none)
        | .error (.finding f) => pure ([], some { f with unit := u.path })
        | .error (.fault f) => throw (.fault f)
  return { base with
    selector := (m.get "selector").str?
    inputs, outputs, template, templateUrl
    templateNodes := nodes
    templateError := error
    styles := ownStyles ++ found.filterMap (·.1)
    styleUrls := urls
    missingResources := missing ++ found.flatMap (·.2)
    hostListeners := listeners ++ members.hostListeners
    standalone :=
      match m.get "standalone" with
      | .bool b => b
      | _ => false }

/-- A pipe: it needs a name and a transformation. -/
def buildPipe (u : SourceUnit) (m : Metadata) (base : DeclBase) : Except Failure PipeDecl := do
  let refuse (message : String) : Failure :=
    .finding { kind := .declaration, message, unit := u.path }
  let pipeName := (m.get "name").str?.getD ""
  if pipeName == "" then throw (refuse "@Pipe metadata has no name")
  match base.method? "transform" with
  | none => throw (refuse s!"Pipe {base.name} has no transform() method")
  | some transform =>
      let pure :=
        match m.get "pure" with
        | .bool b => b
        | _ => true
      return { base with pipeName, pure, transform := some transform }

/-- Texts in a class that show that its directive renders markup of its own. -/
def markupMarkers : List String :=
  ["createElement(", "appendChild(", "insertBefore(", "createComponent(", ".innerHTML"]

/-- A directive. -/
def buildDirective (m : Metadata) (base : DeclBase) (members : Members) (classText : String) :
    Except Fault DirectiveDecl := do
  let structural := base.dependencies.any (·.typeName.startsWith "TemplateRef")
  let (listeners, bindings) := hostMetadata m
  let inputs := (← metadataInputs m) ++ members.inputs
  let outputs := (← metadataOutputs m) ++ members.outputs
  return { base with
    selector := (m.get "selector").str?
    directiveKind := if structural then .structural else .attribute
    inputs, outputs
    hostListeners := listeners ++ members.hostListeners
    hostBindings := bindings ++ members.hostBindings
    rendersMarkup := !structural && markupMarkers.any (occursIn · classText) }

/-- The names listed under a key of the metadata. -/
def namesUnder (m : Metadata) (key : String) : List String :=
  let v := m.get key
  if v.isEmpty then []
  else
    match v with
    | .list items => items.map Metadata.name
    | v => [v.name]

/-- Adds the routes that an imported router module is given. -/
def addRoutes (s : Source) (arrays : List (String × Node)) (d : ModuleDecl) (entry : Metadata) :
    ModuleDecl :=
  match entry with
  | .call callee (first :: _) _ =>
      if callee.endsWith "RouterModule.forRoot" || callee.endsWith "RouterModule.forChild" then
        match first with
        | .list items => { d with routes := routesOf (.list items) }
        | .expr t =>
            match arrays.lookup t with
            | some array => { d with routes := routesOf (Metadata.ofNode s array) }
            | none => { d with routeSource := some t }
        | _ => d
      else d
  | _ => d

/-- A module. -/
def buildModule (m : Metadata) (base : DeclBase) (s : Source) (root : Node) :
    Except Fault ModuleDecl := do
  let d : ModuleDecl := { base with
    declarations := namesUnder m "declarations"
    imports := namesUnder m "imports"
    exports := namesUnder m "exports"
    providers := namesUnder m "providers"
    bootstrap := namesUnder m "bootstrap" }
  let entries ← (m.get "imports").several
  return entries.foldl (addRoutes s (TypeScript.routeArrays s root)) d

/-- A table of routes: all arrays of routes of the unit, under the name of the first. -/
def readRoutes (u : SourceUnit) (s : Source) (root : Node) : Except Failure RouteConfigDecl :=
  match TypeScript.routeArrays s root with
  | [] => .error (.finding { kind := .unclassified, message := "No route array found", unit := u.path })
  | (name, first) :: rest =>
      let routes := ((name, first) :: rest).flatMap fun (_, array) =>
        routesOf (Metadata.ofNode s array)
      .ok { name, sourcePath := u.path, routes }

/-- Reads the declaration of a classified unit. -/
def read (resources : Resources) (u : SourceUnit) : Except Failure Declaration := do
  let refuse (message : String) : Failure :=
    .finding { kind := .declaration, message, unit := u.path }
  match u.kind with
  | none =>
      throw (.finding
        { kind := .unclassified, message := "Unit has not been classified", unit := u.path })
  | some kind =>
      let s := Source.ofString u.text
      let root := TypeScript.parse u.text false
      if kind == .routes then return .routes (← readRoutes u s root)
      let shown := u.className.getD "None"
      match TypeScript.findClass? s root (u.className.getD "") with
      | none => throw (refuse s!"Class {shown} not found")
      | some c =>
          let expected := decoratorOf kind
          match c.decorators.find? fun d => TypeScript.decoratorName s d == expected with
          | none => throw (refuse s!"@{expected} decorator not found on {shown}")
          | some d =>
              let m ← metadataOf u kind s d
              let members := membersOf s c.node
              let base := baseOf u c.name members (importsOf s root)
              match kind with
              | .component => return .component (← buildComponent resources u m base members)
              | .service => return .service { base with providedIn := (m.get "providedIn").str? }
              | .pipe => return .pipe (← buildPipe u m base)
              | .directive =>
                  return .directive (← (buildDirective m base members (s.text c.node)).mapError .fault)
              | .module => return .module (← (buildModule m base s root).mapError .fault)
              | .routes => return .routes (← readRoutes u s root)

end ReactMigration.Declaration
