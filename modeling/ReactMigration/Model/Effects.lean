import ReactMigration.Model.Fields
import ReactMigration.Report.Diagnostic

/-!
Methods and effects of a model: lifecycle methods become effects, and subscriptions that are opened
on mount are released on cleanup.
-/

namespace ReactMigration.Model

open ReactMigration.Text

/-- A method of the model. -/
def methodModel (m : MethodDecl) : MethodModel where
  name := m.name
  params := m.params
  body := m.body
  returnType := m.returnType
  isAsync := m.isAsync
  asynchronous := m.isAsynchronous
  isPublic := m.visibility == .anywhere

/-- Adds the methods and getters that are neither the constructor nor lifecycle methods; a setter is
not converted. -/
def collectMethods (d : DeclBase) (skip : List String) (m : ModelBase) : Noting ModelBase :=
  d.methods.foldlM (fun m method => do
    if method.name == "constructor" || Framework.lifecycle.contains method.name ||
        skip.contains method.name then
      return m
    match method.accessor with
    | some .get =>
        return { m with getters := m.getters ++ [⟨method.name, method.body, method.returnType⟩] }
    | some .set =>
        Noting.warnAt .unsupportedConstruct
          s!"Property setter '{method.name}' of {d.name} is not converted" (some method.line) none
        return m
    | none => return { m with methods := m.methods ++ [methodModel method] }) m

/-! ### Subscriptions -/

/-- A subscription kept in a member of the instance. -/
def heldSubscription : Pattern :=
  .first ++ .text "this." ++ .group 1 .name ++ .blanks ++ assigns ++ .anything ++
    .text ".subscribe("

/-- A subscription kept in a local variable. -/
def localSubscription : Pattern :=
  .first ++ .oneOf ["const", "let", "var"] ++ .blanks1 ++ .group 1 .name ++ .blanks ++ .text "=" ++
    .anything ++ .text ".subscribe("

/-- The name of the `n`-th subscription that has none, from one. -/
def subscriptionName (n : Nat) : String :=
  if n ≤ 1 then "subscription" else s!"subscription{n}"

/-- A statement with its subscription named, and what releases it; `count` subscriptions without
names came before. -/
def releaseStatement (destroyBody : String) (count : Nat) (s : Statement) :
    String × List String × Nat :=
  match heldSubscription.lead? s.text, localSubscription.lead? s.text with
  | some m, _ =>
      let member := "this." ++ m.group 1
      if occursIn (member ++ ".unsubscribe") destroyBody then (s.text, [], count)
      else (s.text, [member ++ ".unsubscribe();"], count)
  | none, some m => (s.text, [m.group 1 ++ ".unsubscribe();"], count)
  | none, none =>
      if occursIn ".subscribe(" s.text && s.kind == "expression_statement" then
        let name := subscriptionName (count + 1)
        (s!"const {name} = {s.text}", [name ++ ".unsubscribe();"], count + 1)
      else (s.text, [], count)

/-- The statements with all subscriptions named, and the releases in order. -/
def releaseSubscriptions (destroyBody : String) :
    Nat → List Statement → List String × List String
  | _, [] => ([], [])
  | count, s :: ss =>
      let (text, released, count) := releaseStatement destroyBody count s
      let (texts, more) := releaseSubscriptions destroyBody count ss
      (text :: texts, released ++ more)

/-! ### Effects -/

/-- A change record of an input: by bracket or by dot. -/
def changeAccess (param : String) (byBracket byDot : Pattern) : Pattern :=
  let quote := Pattern.one fun c => c == '\'' || c == '"'
  .boundary ++ .text param ++
    ((.text "[" ++ .blanks ++ quote ++ byBracket ++ quote ++ .blanks ++ .text "]") <|>
      (.text "." ++ byDot))

/-- Replaces reads of one input's change record. -/
def replaceChange (param body name : String) : String :=
  let access := changeAccess param (.text name) (.text name ++ .boundary)
  let mark := Pattern.opt (.text "?")
  let body := (access ++ mark ++ .text ".currentValue" ++ .boundary).replace ("this." ++ name) body
  let body := (access ++ mark ++ .text ".firstChange" ++ .boundary).replace "false" body
  (access ++ .ahead false (mark ++ .text ".previousValue")).replace
    s!"(this.{name} !== undefined)" body

/-- The effect of reacting to changed inputs. -/
def changesEffect (method : MethodDecl) (inputs : List InputProp) : Noting Effect := do
  let param := (method.params.head?.map (·.name)).getD "changes"
  let names := inputs.map (·.name)
  let access := changeAccess param (.group 1 .name) (.group 2 .name)
  let referenced := ((access.findAll method.body).map fun m =>
    match m.group? 1 with
    | some n => n
    | none => m.group 2).filter names.contains |>.eraseDups
  if occursIn "previousValue" method.body then
    Noting.warnAt .unsupportedConstruct
      "ngOnChanges reads previousValue, which has no counterpart in an effect" (some method.line) none
  return {
    trigger := .changes
    body := referenced.foldl (replaceChange param) method.body
    deps := if referenced.isEmpty then names else referenced
    origin := ["ngOnChanges"] }

/-- The parameter that a setter of an input has for the prop, if it has another name. -/
def setterParam? (setter : MethodDecl) (input : String) : Option String :=
  (setter.params.head?.map (·.name)).filter (· ≠ input)

/-- The effect of a setter of an input. -/
def setterEffect (setter : MethodDecl) (input : String) : Effect :=
  let body :=
    match setterParam? setter input with
    | some param => (Pattern.notAfter Pattern.isPath ++ .text param ++ .boundary).substitute
        ("this." ++ input) setter.body
    | none => setter.body
  { trigger := .changes, body, deps := [input], origin := ["set " ++ input] }

/-- The setters of inputs with the inputs. -/
def inputSetters (d : DeclBase) (inputs : List InputProp) : List (MethodDecl × String) :=
  (inputs.filter (·.isSetter)).filterMap fun i =>
    match d.method? i.name with
    | some m => if m.accessor == some .set then some (m, i.name) else none
    | none => none

/-- The effects of setters.  The name of an input is written by a replacement, which may have an escape
that cannot be read. -/
def setterEffects (setters : List (MethodDecl × String)) : Noting (List Effect) :=
  setters.mapM fun (setter, input) => do
    if (setterParam? setter input).isSome then
      Noting.lift (discard ((Replacement.read ("this." ++ input)).mapError .unreadReplacement))
    return setterEffect setter input

/-- The effect of being created and destroyed. -/
def mountEffect (d : DeclBase) : List Effect :=
  let (_, rest) := constructorParts d
  let init := d.method? "ngOnInit"
  let destroy := d.method? "ngOnDestroy"
  if init.isNone && destroy.isNone && rest.isEmpty then []
  else
    let destroyBody := (destroy.map (·.body)).getD ""
    let (statements, released) := releaseSubscriptions destroyBody 0 ((init.map (·.statements)).getD [])
    let origin := ["ngOnInit", "ngOnDestroy"].filter d.lifecycleHooks.contains
    [{ trigger := .mount
       body := unlines (rest ++ statements)
       cleanup := unlines (released ++ if destroyBody == "" then [] else [destroyBody])
       origin := if origin.isEmpty then ["constructor"] else origin }]

/-- The effects of the lifecycle methods. -/
def lifecycleEffects (d : DeclBase) (inputs : List InputProp) : Noting (List Effect) := do
  let changes ←
    match d.method? "ngOnChanges" with
    | some m => do pure [← changesEffect m inputs]
    | none => pure []
  let setters ← setterEffects (inputSetters d inputs)
  let plain (trigger : Trigger) (hooks : List String) : List Effect :=
    hooks.filterMap fun hook =>
      (d.method? hook).map fun m => { trigger, body := m.body, origin := [hook] }
  return mountEffect d ++ changes ++ setters ++ plain .mount ["ngAfterContentInit", "ngAfterViewInit"] ++
    plain .everyRender ["ngDoCheck", "ngAfterContentChecked", "ngAfterViewChecked"]

end ReactMigration.Model
