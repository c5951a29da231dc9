import ReactMigration.Conversion.Draft
import ReactMigration.Framework
import ReactMigration.Template.Value

/-!
Bound expressions of a template: template locals, pipes as function calls, remembered values and
awaited values.
-/

namespace ReactMigration

open ReactMigration.Template
open ReactMigration.Text

/-- The template locals visible at a place, how many regions enclose it, and whether one of them is
a loop. -/
structure Scope where
  locals : Table String := []
  depth : Nat := 0
  inLoop : Bool := false
  deriving Repr, DecidableEq, Inhabited

/-- The scope of an enclosed region with further locals. -/
def Scope.child (s : Scope) (locals : Table String) (loop : Bool) : Scope :=
  { locals := locals.foldl (fun t (k, v) => t.set k v) s.locals
    depth := s.depth + 1
    inLoop := s.inLoop || loop }

/-- What a template is converted against. -/
structure TemplateEnv where
  index : SymbolIndex
  names : RecastContext
  refs : Table TemplateReference := []
  viewChildren : Table String := []
  deriving Inhabited

/-- A text as a string of the generated code. -/
def quoteText (s : String) : String :=
  "'" ++ replaceAll "'" "\\'" (replaceAll "\\" "\\\\" s) ++ "'"

/-- Whether a text is an identifier. -/
def isIdentifier (s : String) : Bool :=
  ((Pattern.first ++ .identifier ++ .last).lead? s).isSome

/-- A key of an object of the generated code. -/
def objectKey (name : String) : String :=
  if isIdentifier name then name else quoteText name

/-- The name of a style property in generated code; a custom property keeps its name. -/
def styleKey (name : String) : String :=
  if name.startsWith "--" then quoteText name
  else if name.toList.contains '-' then Naming.camelCase name
  else name

/-- The class of an element. -/
def elementTypes : Table String :=
  [("input", "HTMLInputElement"), ("textarea", "HTMLTextAreaElement"),
   ("select", "HTMLSelectElement"), ("button", "HTMLButtonElement"), ("form", "HTMLFormElement"),
   ("a", "HTMLAnchorElement"), ("img", "HTMLImageElement"), ("canvas", "HTMLCanvasElement"),
   ("video", "HTMLVideoElement"), ("audio", "HTMLAudioElement"), ("div", "HTMLDivElement"),
   ("span", "HTMLSpanElement"), ("ul", "HTMLUListElement"), ("table", "HTMLTableElement")]

/-- The class of an element with a tag. -/
def elementTypeOf (tag : String) : String :=
  (elementTypes.get? (toLower tag)).getD "HTMLElement"

/-- Names that never change. -/
def globalNames : List String :=
  ["Math", "JSON", "Date", "Number", "String", "Object", "Array", "Boolean", "console", "window",
   "document", "parseInt", "parseFloat", "isNaN", "undefined", "null", "true", "false"]

namespace Scope

/-- Converts an expression. -/
def expression (env : TemplateEnv) (s : Scope) (text : String) : Converting String :=
  Converting.expression env.names s.locals text

/-- The path an expression starts with. -/
def accessPath : Pattern :=
  .many Pattern.isPath 1 true

/-- The function of a pipe, and whether its result depends on its arguments alone. -/
def pipeFunction (env : TemplateEnv) (name : String) : Converting (String × Bool) := do
  match Framework.pipes.get? name with
  | some function =>
      Converting.imports fun i => i.named Support.pipes function
      return (function, true)
  | none =>
      match env.index.pipe name with
      | some { unit, declaration := .pipe d, .. } =>
          let function := Naming.pipeFunctionName d.pipeName
          Converting.imports fun i => i.named (.pipeFunction d.pipeName unit) function
          return (function, d.pure)
      | _ => return (Naming.pipeFunctionName name, false)

/-- Notes a construct that is not converted, at its place if it has one. -/
def warnMaybeAt (message : String) : Option Position → Converting Unit
  | some p => Converting.warnAt message p
  | none => Converting.warn message

/-- The name for an awaited expression: the last part of the path it starts with. -/
def awaitedName (code : String) : String :=
  match accessPath.lead? code with
  | some m => String.ofList (dropTrailing (· == '$') (splitLast '.' m.text).2.toList)
  | none => ""

/-- The variable that follows a stream or promise; one variable for one expression. -/
def await (s : Scope) (code : String) (preferred : Option String) (p : Option Position) :
    Converting String := do
  let templateLocals := (s.locals.filter fun (_, v) => !v.endsWith ".current!").map (·.1)
  if (← Noting.lift (Script.extractIdentifiers code)).any templateLocals.contains then
    warnMaybeAt "async pipe over a template-local value is not converted" p
    return code
  match (← get).asyncValues.get? code with
  | some name => return name
  | none =>
      let base := awaitedName code
      let name ← Converting.unique
        (if present preferred then preferred.getD "" else if base != "" then base else "asyncValue")
      modify fun d => { d with asyncValues := d.asyncValues.set code name }
      Converting.modifyBody fun b =>
        { b with derived := b.derived ++ [{ name, value := s!"useObservableValue({code})" }] }
      Converting.imports fun i => i.named Support.observableValue "useObservableValue"
      return name

/-- The names that remembered sources depend on. -/
def dependenciesOf (sources : List String) : Converting (List String) := do
  let names ← sources.mapM fun source => Noting.lift (Script.extractIdentifiers source)
  return (names.flatten.filter (!globalNames.contains ·)).eraseDups

/-- The variable that remembers an expression; one variable for one expression. -/
def remember (code function : String) (sources : List String) (preferred : Option String) :
    Converting String := do
  match (← get).memos.get? code with
  | some name => return name
  | none =>
      let deps ← dependenciesOf sources
      let name ← Converting.unique
        (if present preferred then preferred.getD "" else function ++ "Value")
      modify fun d => { d with memos := d.memos.set code name }
      Converting.modifyBody fun b =>
        { b with memos := b.memos ++ [{ name, expression := code, deps }] }
      Converting.react ["useMemo"]
      return name

/-- What applying pipes has come to: the code, what it is computed from, whether all pipes were
pure, and the function of the last pipe that is one. -/
structure PipeProgress where
  code : String
  sources : List String
  pure : Bool := true
  lastFunction : Option String := none

/-- Applies pipes from left to right. -/
def applyPipes (env : TemplateEnv) (s : Scope) (preferred : Option String) (p : Option Position) :
    PipeProgress → List PipeStep → Converting PipeProgress
  | progress, [] => return progress
  | progress, step :: steps => do
      let args ← step.args.mapM (s.expression env)
      if step.name == Framework.asyncPipe then
        let code ← s.await progress.code (if steps.isEmpty then preferred else none) p
        applyPipes env s preferred p { progress with code, sources := [code] } steps
      else
        let (function, isPure) ← pipeFunction env step.name
        let joined := ", ".intercalate (progress.code :: args)
        applyPipes env s preferred p
          { code := s!"{function}({joined})", sources := progress.sources ++ args
            pure := progress.pure && isPure, lastFunction := some function } steps

/-- Converts a bound value: pipes become calls, remembered when they are pure and stand outside of
every region. -/
def bound (env : TemplateEnv) (s : Scope) (value : BoundValue) (preferred : Option String)
    (p : Option Position) : Converting String := do
  match value with
  | .text expression => s.expression env expression
  | .pipe .. =>
      let code ← s.expression env value.base
      let result ← applyPipes env s preferred p { code, sources := [code] } value.chain
      match result.lastFunction with
      | some function =>
          if result.pure && s.depth == 0 then remember result.code function result.sources preferred
          else return result.code
      | none => return result.code

/-- Converts a bound value at a place. -/
def boundAt (env : TemplateEnv) (s : Scope) (value : BoundValue) (p : Position) :
    Converting String :=
  s.bound env value none (some p)

end Scope

end ReactMigration
