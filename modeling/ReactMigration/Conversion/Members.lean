import ReactMigration.Conversion.Draft
import ReactMigration.Framework

/-!
Class members as the body of a function: changing fields become state, template elements and
subscriptions become refs, lifecycle methods become effects, methods become functions, and injected
classes become hook calls.
-/

namespace ReactMigration.Members

open ReactMigration.Text

/-- The element type of a handle on an element. -/
def elementRefPattern : Pattern :=
  .first ++ .text "ElementRef" ++ .blanks ++ .text "<" ++ .blanks ++
    .group 1 (.many (· != '\n') 1 true) ++ .blanks ++ .text ">" ++ .last

/-- The type of the element that a ref holds. -/
def elementType (typeName : Option String) : String :=
  let name := typeName.getD ""
  match elementRefPattern.lead? (trim name) with
  | some m => m.group 1
  | none => if name == "" || name.startsWith "ElementRef" then "HTMLElement" else name

/-- What a subscription is, without the stream library. -/
def subscriptionType : String :=
  "\x7b unsubscribe(): void \x7d"

/-- A type with subscriptions spelled out. -/
def withoutSubscription (typeName : String) : String :=
  (.boundary ++ .text "Subscription" ++ .boundary : Pattern).replace subscriptionType typeName

/-- A body that only returns a value. -/
def returnOnly : Pattern :=
  .first ++ .text "return" ++ .blanks1 ++ .group 1 (.many (fun _ => true) 1 false) ++
    .opt (.text ";") ++ .last

/-- The role of each member of a model.  Subjects and refs are listed as the run goes through them. -/
def context (order : NameOrder) (m : ModelBase) (props : List String)
    (outputs elementRefs : Table String) : RecastContext :=
  let state := m.state.foldl (fun (t : Table String) c => t.set c.name c.setter) []
  let dependencies := m.dependencies.foldl (fun (t : Table Injected) d => t.set d.name d) []
  let refs := m.refs.map (·.name)
  { props, outputs, state, subjects := order.list m.subjects, refs := order.list refs, elementRefs
    dependencies
    members := (props ++ outputs.keys ++ state.keys ++ refs ++ m.constants.map (·.name) ++
      m.methods.map (·.name) ++ m.getters.map (·.name) ++ dependencies.keys).eraseDups }

/-- Recasts a value that may be missing. -/
def value (ctx : RecastContext) : Option String → Converting (Option String)
  | none => return none
  | some v => return some (← Converting.body ctx v)

/-- A getter as an expression: what it returns, or a function called at once. -/
def getterValue (recast : String) : String :=
  let recast := trim recast
  let whole := "(() => \x7b\n" ++ recast ++ "\n\x7d)()"
  match returnOnly.lead? recast with
  | some m =>
      let returned := m.group 1
      if returned.toList.contains ';' || (trim returned).toList.contains '\n' then whole
      else trim returned
  | none => whole

/-- An effect with its bodies recast. -/
def effect (ctx : RecastContext) (e : Effect) : Converting EffectDecl := do
  let body ← Converting.body ctx e.body
  let cleanup ← Converting.body ctx e.cleanup
  let deps :=
    match e.trigger with
    | .mount => some []
    | .changes => some e.deps
    | .everyRender => none
  let comment := if e.origin.isEmpty then none else some (", ".intercalate e.origin)
  return { body, cleanup, deps, comment }

/-- A ref cell. -/
def refDecl (ctx : RecastContext) (c : RefCell) : Converting RefDecl := do
  if c.element then return { name := c.name, initial := some "null", type := some (elementType c.type) }
  let initial ← value ctx c.initial
  return { name := c.name, initial
           type := c.type.map fun t => if t == "" then t else withoutSubscription t }

/-- A constant; one without a value is undefined. -/
def constDecl (ctx : RecastContext) (c : ConstantCell) : Converting ConstDecl := do
  match ← value ctx c.value with
  | some v => return { name := c.name, value := v, type := c.type }
  | none =>
      return { name := c.name, value := "undefined"
               type := c.type.map fun t => if t == "" then t else t ++ " | undefined" }

/-- A method. -/
def functionDecl (ctx : RecastContext) (m : MethodModel) : Converting FunctionDecl := do
  return { name := m.name, params := m.params, body := ← Converting.body ctx m.body
           returnType := m.returnType, isAsync := m.isAsync }

/-- Writes the members of a model into the draft's body. -/
def convert (m : ModelBase) (ctx : RecastContext) : Converting Unit := do
  let state ← m.state.mapM fun c => do
    return { name := c.name, setter := c.setter, initial := ← value ctx c.initial, type := c.type
             : StateDecl }
  if !state.isEmpty then Converting.react ["useState"]
  let refs ← m.refs.mapM (refDecl ctx)
  let constants ← m.constants.mapM (constDecl ctx)
  let functions ← m.methods.mapM (functionDecl ctx)
  let derived ← m.getters.mapM fun g => do
    return { name := g.name, value := getterValue (← Converting.body ctx g.body), type := g.type
             : ConstDecl }
  let effects ← m.effects.mapM (effect ctx)
  if !effects.isEmpty then Converting.react ["useEffect"]
  modify fun d => { d with body := { state, refs, constants, functions, derived, effects } }

/-! ### Host listeners -/

/-- What a listener is attached to: a global object, or the host element if there is a ref to it. -/
def listenerTarget? (target : String) (host : Option String) : Option String :=
  if target == "window" || target == "document" then some target
  else if target == "body" then some "document.body"
  else host.map (· ++ ".current")

/-- The effect that attaches one listener after every rendering, so that it sees current state. -/
def listenerEffect (ctx : RecastContext) (host : Option String) (l : HostListener) :
    Converting (List EffectDecl) := do
  let (targetName, event) := splitLast ':' l.event
  match listenerTarget? targetName host with
  | none =>
      Converting.warn s!"Host listener '{l.event}' has no element to attach to"
      return []
  | some target =>
      let args := ", ".intercalate l.args
      let call ← Converting.expression ctx [] s!"{l.handler}({args})"
      let body := unlines
        [s!"const target = {target};", "if (!target) return;",
         s!"const listener = (event: Event) => {call};",
         s!"target.addEventListener('{event}', listener);",
         s!"return () => target.removeEventListener('{event}', listener);"]
      return [{ body, comment := some s!"@HostListener('{l.event}')" }]

/-- The effects that attach all listeners. -/
def listenerEffects (ctx : RecastContext) (host : Option String) (ls : List HostListener) :
    Converting (List EffectDecl) := do
  return (← ls.mapM (listenerEffect ctx host)).flatten

/-! ### Dependencies -/

/-- The call that gives access to navigation. -/
def navigateCall : String :=
  "const navigate = useNavigate();"

/-- A hook call that is made only when the code relies on it. -/
def routerCall (use hook call : String) : Converting (List String) := do
  if (← get).uses.contains use then
    Converting.router [hook]
    return [call]
  else return []

/-- The hook calls and refs that stand for a dependency, `provided` being names already in
scope. -/
def dependencyHook (elementRefs : Table String) (provided : List String) (dep : Injected) :
    Converting (List String × List RefDecl) := do
  match dep.kind with
  | .service =>
      let target := dep.target.getD ""
      let hook := Naming.serviceHookName target
      Converting.imports fun i => i.named (.service target (dep.targetUnit.getD "")) hook
      return ([s!"const {dep.name} = {hook}();"], [])
  | .unresolved =>
      return ([s!"const {dep.name}: any = undefined; // unresolved dependency: {dep.typeName}"], [])
  | .builtin =>
      match dep.typeName with
      | "Router" => do
          let navigate ← routerCall "navigate" "useNavigate" navigateCall
          let address ← routerCall "location" "useLocation" "const location = useLocation();"
          return (navigate ++ address, [])
      | "ActivatedRoute" => do
          let params ← routerCall "params" "useParams" "const params = useParams();"
          let search ← routerCall "searchParams" "useSearchParams"
            "const [searchParams] = useSearchParams();"
          return (params ++ search, [])
      | "HttpClient" => do
          Converting.imports fun i => i.named Support.httpClient "useHttpClient"
          return ([s!"const {dep.name} = useHttpClient();"], [])
      | "ElementRef" => do
          let name := (elementRefs.get? dep.name).getD dep.name
          let declared := (← get).body.refs.any (·.name == name)
          if provided.contains name || declared then return ([], [])
          else return ([], [{ name, initial := some "null", type := some "HTMLElement" }])
      | typeName =>
          if Framework.unsupportedProviders.contains typeName then
            return ([s!"const {dep.name}: any = undefined; // {typeName} has no React equivalent"], [])
          else return ([], [])

/-- Puts the hook calls of all dependencies in front, once everything that may rely on them has been
recast. -/
def dependencyHooks (m : ModelBase) (elementRefs : Table String) (provided : List String) :
    Converting Unit := do
  let found ← m.dependencies.mapM (dependencyHook elementRefs provided)
  let calls := found.flatMap (·.1)
  let extra ←
    if calls.contains navigateCall then pure []
    else routerCall "navigate" "useNavigate" navigateCall
  Converting.modifyBody fun b =>
    { b with hookCalls := calls ++ extra ++ b.hookCalls, refs := found.flatMap (·.2) ++ b.refs }
  if !(← get).body.refs.isEmpty then Converting.react ["useRef"]

end ReactMigration.Members
