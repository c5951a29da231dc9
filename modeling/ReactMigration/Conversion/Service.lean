import ReactMigration.Conversion.Members

/-!
Services become hooks.  Asynchronous methods get state of their own for loading and failure, and the
hook returns what the class made public.
-/

namespace ReactMigration

open ReactMigration.Text

/-- Two spaces in front of every line with content. -/
def indentLines (text : String) : String :=
  unlines ((lines text).map fun line => if isBlankText line then line else "  " ++ line)

/-- A method wrapped so that its loading and failure state follow every call. -/
def trackAsync (f : FunctionDecl) (setLoading setError : String) : FunctionDecl :=
  let head := [setLoading ++ "(true);", setError ++ "(null);"]
  let inner := indentLines f.body
  let body :=
    if f.isAsync then
      head ++ ["try \x7b", inner, "\x7d catch (caught) \x7b", s!"  {setError}(caught);",
        "  throw caught;", "\x7d finally \x7b", s!"  {setLoading}(false);", "\x7d"]
    else
      head ++ ["return Promise.resolve((() => \x7b", inner, "\x7d)())", "  .catch((caught) => \x7b",
        s!"    {setError}(caught);", "    throw caught;", "  \x7d)",
        s!"  .finally(() => {setLoading}(false));"]
  { f with body := unlines body }

/-- The state that follows a method. -/
def loadingName (method : String) : String :=
  method ++ "Loading"

/-- The state that holds the last error of a method. -/
def errorName (method : String) : String :=
  method ++ "Error"

/-- Changes the last function of a name. -/
def modifyLast (name : String) (f : FunctionDecl → FunctionDecl) (fs : List FunctionDecl) :
    List FunctionDecl :=
  let rec go : List FunctionDecl → List FunctionDecl
    | [] => []
    | x :: xs => if x.name == name then f x :: xs else x :: go xs
  (go fs.reverse).reverse

/-- Adds loading and failure state for one method. -/
def trackMethod (b : FunctionBody) (m : MethodModel) : FunctionBody :=
  let loading := loadingName m.name
  let error := errorName m.name
  { b with
    state := b.state ++
      [{ name := loading, setter := Naming.setterName loading, initial := some "false"
         type := some "boolean" },
       { name := error, setter := Naming.setterName error, initial := some "null"
         type := some "unknown" }]
    functions := modifyLast m.name
      (trackAsync · (Naming.setterName loading) (Naming.setterName error)) b.functions }

/-- A service. -/
def convertService (index : SymbolIndex) (order : NameOrder) (m : ServiceModel) :
    Noting (List Artifact) := do
  let tracked := m.methods.filter (·.asynchronous)
  let names := Members.context order m.toModelBase [] [] []
  let work : Converting Unit := do
    Converting.imports fun i => i.carry index m.sourcePath m.sourceImports
    Members.convert m.toModelBase names
    Converting.modifyBody fun b => tracked.foldl trackMethod b
    if !tracked.isEmpty then Converting.react ["useState"]
    Members.dependencyHooks m.toModelBase [] []
  let (_, d) ← work.run {}
  let returns :=
    (m.state.filter (·.isPublic)).map (·.name) ++
    tracked.flatMap (fun t => [loadingName t.name, errorName t.name]) ++
    (m.constants.filter fun c => c.isPublic && !c.static).map (·.name) ++
    m.getters.map (·.name) ++ (m.methods.filter (·.isPublic)).map (·.name)
  return [.hook
    { ref := .service m.name m.sourcePath, name := Naming.serviceHookName m.name
      imports := d.imports, body := d.body, returns }]

end ReactMigration
