import ReactMigration.Conversion.Imports
import ReactMigration.Conversion.Recast
import ReactMigration.Report.Diagnostic

/-!
The state of converting one unit: what has been gathered for its module so far.
-/

namespace ReactMigration

/-- A module in the making. -/
structure Draft where
  imports : Imports := []
  body : FunctionBody := {}
  /-- The hooks that recast code relies on. -/
  uses : List String := []
  moduleConstants : List ConstDecl := []
  /-- The ref of each template reference on an element. -/
  elementRefs : Table String := []
  /-- Names that are in use. -/
  taken : List String := []
  /-- The variable of each awaited expression. -/
  asyncValues : Table String := []
  /-- The variable of each remembered expression. -/
  memos : Table String := []
  /-- Whether the remark about named slots has been made. -/
  slotNoted : Bool := false
  deriving Inhabited

/-- Conversion of a unit: it fills a draft, notes diagnostics and may break off. -/
abbrev Converting := StateT Draft Noting

namespace Converting

/-- Notes a construct that is not converted. -/
def warn (message : String) : Converting Unit :=
  Noting.warn .unsupportedConstruct message

/-- Notes a construct that is not converted, at its place. -/
def warnAt (message : String) (p : Template.Position) : Converting Unit :=
  Noting.warnAt .unsupportedConstruct message (some p.line) (some p.column)

/-- Changes the imports. -/
def imports (f : Imports → Imports) : Converting Unit :=
  modify fun d => { d with imports := f d.imports }

/-- Changes the function body. -/
def modifyBody (f : FunctionBody → FunctionBody) : Converting Unit :=
  modify fun d => { d with body := f d.body }

/-- Imports names from the view library. -/
def react (names : List String) : Converting Unit :=
  imports fun i => i.react names

/-- Imports names from the router. -/
def router (names : List String) : Converting Unit :=
  imports fun i => i.router names

/-- Notes that the code relies on a hook. -/
def uses (hook : String) : Converting Unit :=
  modify fun d => if d.uses.contains hook then d else { d with uses := d.uses ++ [hook] }

/-- Takes over what a recasting has to say. -/
def recasting {α : Type} (r : Recasting α) : Converting α := do
  let (x, notes) := r.run { uses := (← get).uses }
  modify fun d => { d with uses := notes.uses }
  notes.warnings.forM warn
  return x

/-- Recasts a body.  A replacement that cannot be read breaks off, after what the passes before it have
to say. -/
def body (ctx : RecastContext) (source : String) : Converting String := do
  match Recast.refusal? ctx source with
  | none => recasting (Recast.body ctx source)
  | some (before, fault) =>
      let _ ← recasting (Recast.body before source)
      throw fault

/-- Recasts a template expression. -/
def expression (ctx : RecastContext) (locals : Table String) (source : String) :
    Converting String := do
  body ctx (← Noting.lift (Recast.expressionBody ctx locals source))

/-- Recasts the statements of a template handler. -/
def statements (ctx : RecastContext) (locals : Table String) (handler : String) :
    Converting (List String) :=
  (Script.statements handler).mapM (expression ctx locals)

/-- The first of `base`, `base2`, `base3`, … that is not taken, within a number of attempts. -/
def freeName (taken : List String) (base : String) : Nat → Nat → String
  | 0, counter => base ++ toString counter
  | n + 1, counter =>
      let name := base ++ toString counter
      if taken.contains name then freeName taken base n (counter + 1) else name

/-- Takes a name that is not in use: the base itself or the base with a number from two. -/
def unique (base : String) : Converting String := do
  let taken := (← get).taken
  let name := if taken.contains base then freeName taken base taken.length 2 else base
  modify fun d => { d with taken := d.taken ++ [name] }
  return name

end Converting

end ReactMigration
