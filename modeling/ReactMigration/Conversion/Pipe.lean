import ReactMigration.Conversion.Members

/-!
A pipe becomes a function, which templates call, and a hook that remembers its result when the pipe
is pure.  Fields live at the level of the module, and injected classes are passed as further
arguments.
-/

namespace ReactMigration

open ReactMigration.Text

/-- The names of a pipe; nothing is state, since fields live at the level of the module. -/
def pipeNames (m : PipeModel) : RecastContext :=
  { members := (m.constants.map (·.name) ++ m.state.map (·.name) ++ m.refs.map (·.name) ++
      m.methods.map (·.name) ++ m.dependencies.map (·.name)).eraseDups }

/-- A value, or undefined. -/
def valueOrUndefined (ctx : RecastContext) (v : Option String) : Converting String := do
  return (← Members.value ctx v).getD "undefined"

/-- The parameter that receives a dependency. -/
def dependencyParam (dep : Injected) : Converting Param := do
  let typed (hook : String) (ref : ArtifactRef) : Converting Param := do
    Converting.imports fun i => i.add { names := [hook], target := some ref, typeOnly := true }
    return { name := dep.name, type := some s!"ReturnType<typeof {hook}>" }
  if dep.kind == .service then
    let target := dep.target.getD ""
    typed (Naming.serviceHookName target) (.service target (dep.targetUnit.getD ""))
  else if dep.typeName == "HttpClient" then typed "useHttpClient" Support.httpClient
  else return { name := dep.name, type := some "any" }

/-- The function of a pipe. -/
def pipeFunctionModule (index : SymbolIndex) (m : PipeModel) (transform : MethodModel) :
    Noting UtilArtifact := do
  let function := Naming.pipeFunctionName m.pipeName
  let names := pipeNames m
  let work : Converting UtilArtifact := do
    Converting.imports fun i => i.carry index m.sourcePath m.sourceImports
    let cell (name : String) (value type : Option String) : Converting ConstDecl := do
      return { name, value := ← valueOrUndefined names value, type }
    let constants ← m.constants.mapM fun c => cell c.name c.value c.type
    let state ← m.state.mapM fun c => cell c.name c.initial c.type
    let refs ← m.refs.mapM fun c => cell c.name c.initial c.type
    m.getters.forM fun g =>
      Converting.warn s!"Getter '{g.name}' of pipe {m.name} is not converted"
    let functions ← m.methods.mapM (Members.functionDecl names)
    let extra ← m.dependencies.mapM dependencyParam
    let body ← Converting.body names transform.body
    let main : FunctionDecl :=
      { name := function, params := transform.params ++ extra, body
        returnType := transform.returnType, isAsync := transform.isAsync
        comment := some s!"'{m.pipeName}' pipe" }
    return { ref := .pipeFunction m.pipeName m.sourcePath, name := function, constants
             mutables := state ++ refs, functions := functions ++ [main], exported := [function] }
  let (util, d) ← work.run {}
  return { util with imports := d.imports }

/-- The hook call that provides a dependency. -/
def pipeHookCall (dep : Injected) : Converting String := do
  if dep.kind == .service then
    let target := dep.target.getD ""
    let hook := Naming.serviceHookName target
    Converting.imports fun i => i.named (.service target (dep.targetUnit.getD "")) hook
    return s!"const {dep.name} = {hook}();"
  else if dep.typeName == "HttpClient" then
    Converting.imports fun i => i.named Support.httpClient "useHttpClient"
    return s!"const {dep.name} = useHttpClient();"
  else return s!"const {dep.name}: any = undefined; // {dep.typeName} has no hook"

/-- The hook of a pipe. -/
def pipeHookModule (m : PipeModel) (transform : MethodModel) : Noting HookArtifact := do
  let function := Naming.pipeFunctionName m.pipeName
  let args := ", ".intercalate (transform.params.map (·.name) ++ m.dependencies.map (·.name))
  let call := s!"{function}({args})"
  let work : Converting (List String) := do
    Converting.imports fun i => i.named (.pipeFunction m.pipeName m.sourcePath) function
    let calls ← m.dependencies.mapM pipeHookCall
    if m.pure then Converting.react ["useMemo"]
    return calls
  let (hookCalls, d) ← work.run {}
  return { ref := .pipeHook m.pipeName m.sourcePath, name := Naming.pipeHookName m.pipeName
           params := transform.params, imports := d.imports, body := { hookCalls }
           returnExpression := some (if m.pure then s!"useMemo(() => {call}, [{args}])" else call) }

/-- A pipe: its function and its hook. -/
def convertPipe (index : SymbolIndex) (m : PipeModel) : Noting (List Artifact) := do
  match m.transform with
  | none => throw (.absentValue "params")
  | some transform =>
      let function ← pipeFunctionModule index m transform
      let hook ← pipeHookModule m transform
      return [.util function, .hook hook]

end ReactMigration
