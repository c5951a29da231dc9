import ReactMigration.Conversion.Imports
import ReactMigration.Conversion.Scope

/-!
The text of declarations and imports in generated modules.

Text is always written with types.  Imports are written last, from the finished text of the module,
so that names carried over but never used are left out.
-/

namespace ReactMigration.Printing

open ReactMigration.Text

/-- How a module is printed: the major version of the view library, and how other modules are
named. -/
structure Settings where
  reactMajor : Int := 18
  importPath : ArtifactRef → String

/-- Puts `level` indents in front of every line with content; other lines become empty. -/
def indentBy (level : Nat) (text : String) : String :=
  let lead := spaces (2 * level)
  unlines ((lines text).map fun line => if isBlankText line then "" else lead ++ line)

/-- Indents a text once. -/
def indent (text : String) : String :=
  indentBy 1 text

/-- Indents a line, an empty one staying empty. -/
def indentLine (line : String) : String :=
  if line == "" then line else indent line

/-- Type arguments. -/
def generic (typeName : Option String) : String :=
  if present typeName then "<" ++ typeName.getD "" ++ ">" else ""

/-- A type after a name. -/
def typed (typeName : Option String) : String :=
  if present typeName then ": " ++ typeName.getD "" else ""

/-- Braces around comma-separated entries. -/
def listed (entries : List String) : String :=
  "\x7b " ++ ", ".intercalate entries ++ " \x7d"

/-! ### Imports -/

/-- Where an import comes from. -/
def moduleOf (settings : Settings) (spec : ImportSpec) : String :=
  match spec.module, spec.target with
  | some m, _ => m
  | none, some ref => settings.importPath ref
  | none, none => ""

/-- The place of an import among the others: the view library, the router, packages, generated
modules, and modules loaded for their effect. -/
def importGroup (spec : ImportSpec) : Nat :=
  if spec.sideEffect then 4
  else
    match spec.module with
    | some "react" => 0
    | some "react-router-dom" => 1
    | some _ => 2
    | none => 3

/-- Whether an import is written before another: by group, then by module, then values before
types. -/
def importLe (settings : Settings) (a b : ImportSpec) : Bool :=
  let key (s : ImportSpec) := (importGroup s, moduleOf settings s, s.typeOnly)
  let (ga, ma, ta) := key a
  let (gb, mb, tb) := key b
  if ga != gb then ga < gb else if ma != mb then ma < mb else !ta || tb

/-- An import statement. -/
def importStatement (module : String) (default : Option String) (names : List String)
    (typeOnly : Bool) : String :=
  let parts := (if present default then [default.getD ""] else []) ++
    (if names.isEmpty then [] else [listed names])
  let keyword := if typeOnly then "import type" else "import"
  keyword ++ " " ++ ", ".intercalate parts ++ " from " ++ quoteText module ++ ";"

/-- The statement of an import, nothing if no name of it is left. -/
def importLine (settings : Settings) (body : String) (reactDefault : Bool) (spec : ImportSpec) :
    Option String :=
  let module := moduleOf settings spec
  if spec.sideEffect then some ("import " ++ quoteText module ++ ";")
  else
    let names := spec.names.mergeSort (· ≤ ·)
    let names := if spec.prune then names.filter (isReferenced · body) else names
    let default :=
      if spec.prune && present spec.default && !isReferenced (spec.default.getD "") body then none
      else spec.default
    let default :=
      if module == "react" && !spec.typeOnly && reactDefault then some "React" else default
    if names.isEmpty && !present default then none
    else some (importStatement module default names spec.typeOnly)

/-- The imports of a module.  Before version 17 markup needs the view library itself in scope. -/
def importBlock (settings : Settings) (specs : List ImportSpec) (body : String) (markup : Bool) :
    List String :=
  let reactDefault := markup && settings.reactMajor < 17
  let sorted := specs.mergeSort (importLe settings)
  let hasReact := sorted.any fun s =>
    !s.sideEffect && moduleOf settings s == "react" && !s.typeOnly
  let statements := sorted.filterMap (importLine settings body reactDefault)
  if reactDefault && !hasReact then "import React from 'react';" :: statements else statements

/-- Imports and body as the text of a module. -/
def compose (settings : Settings) (specs : List ImportSpec) (body : String) (markup : Bool) :
    String :=
  let imports := unlines (importBlock settings specs body markup)
  let text := if imports == "" then trim body else imports ++ "\n\n" ++ trim body
  trimEnd text ++ "\n"

/-! ### Declarations -/

/-- The members of an interface. -/
def interface (name : String) (fields : List PropField) (allOptional : Bool) : String :=
  if fields.isEmpty then s!"export type {name} = Record<string, never>;"
  else
    let member (f : PropField) : String :=
      let mark := if allOptional || f.optional then "?" else ""
      let key := if isIdentifier f.name then f.name else quoteText f.name
      "  " ++ key ++ mark ++ ": " ++ f.type ++ ";"
    unlines ((s!"export interface {name} " ++ "\x7b") :: fields.map member ++ ["\x7d"])

/-- The pattern that takes the fields of an object apart. -/
def destructure (fields : List PropField) (rest : Option String) : String :=
  let part (f : PropField) : String :=
    f.name ++ (if present f.binding then ": " ++ f.binding.getD "" else "") ++
      ((f.default.map (" = " ++ ·)).getD "")
  let parts := fields.map part ++ (rest.filter (· ≠ "")).toList.map ("..." ++ ·)
  if parts.isEmpty then "\x7b\x7d" else listed parts

/-- A state cell with its setter. -/
def stateText (s : StateDecl) : String :=
  s!"const [{s.name}, {s.setter}] = useState" ++ generic s.type ++ "(" ++ s.initial.getD "" ++ ");"

/-- A ref; one without a value may be undefined. -/
def refText (r : RefDecl) : String :=
  match r.initial with
  | some initial => s!"const {r.name} = useRef" ++ generic r.type ++ "(" ++ initial ++ ");"
  | none =>
      let type := r.type.map fun t => if t == "" then t else t ++ " | undefined"
      s!"const {r.name} = useRef" ++ generic type ++ "(undefined);"

/-- A declaration with a value. -/
def constText (keyword : String) (c : ConstDecl) : String :=
  keyword ++ " " ++ c.name ++ typed c.type ++ " = " ++ c.value ++ ";"

/-- A remembered value with what it depends on. -/
def memoText (m : MemoDecl) : String :=
  let deps := ", ".intercalate m.deps
  s!"const {m.name} = useMemo(() => {m.expression}, [{deps}]);"

/-- A comment line, if there is a comment. -/
def commentLine (comment : Option String) : List String :=
  if present comment then ["// " ++ comment.getD ""] else []

/-- A function with its comment. -/
def functionText (exported : Bool) (f : FunctionDecl) : String :=
  let params := ", ".intercalate (f.params.map (·.signature true))
  let head := (if exported then "export " else "") ++ (if f.isAsync then "async " else "")
  unlines (commentLine f.comment ++
    [head ++ "function " ++ f.name ++ "(" ++ params ++ ")" ++ typed f.returnType ++ " \x7b"] ++
    (if isBlankText f.body then [] else [indent f.body]) ++ ["\x7d"])

/-- Whether a body waits without being asynchronous itself. -/
def waits (body : String) : Bool :=
  (Pattern.notAfter Pattern.isPath ++ .text "await" ++ .boundary).occurs body &&
    !(.boundary ++ .text "async" ++ .boundary : Pattern).occurs body

/-- An effect with its clean-up; a body that waits runs in an asynchronous function of its own. -/
def effectText (e : EffectDecl) : String :=
  let body := trim e.body
  let body := if waits body then "(async () => \x7b\n" ++ indent body ++ "\n\x7d)();" else body
  let cleanup := trim e.cleanup
  let close :=
    match e.deps with
    | none => "\x7d);"
    | some deps => "\x7d, [" ++ ", ".intercalate deps ++ "]);"
  unlines (commentLine e.comment ++ ["useEffect(() => \x7b"] ++
    (if body == "" then [] else [indent body]) ++
    (if cleanup == "" then []
     else ["  return () => \x7b", indentBy 2 cleanup, "  \x7d;"]) ++ [close])

/-- The groups of a function body in order, without the empty ones. -/
def bodyText (b : FunctionBody) : String :=
  let several (texts : List String) : List String :=
    if texts.isEmpty then [] else ["\n\n".intercalate texts]
  let groups : List (List String) :=
    [b.hookCalls, b.state.map stateText, b.refs.map refText, b.constants.map (constText "const"),
     several (b.functions.map (functionText false)), b.derived.map (constText "const"),
     b.memos.map memoText, b.hookUses, several (b.effects.map effectText)]
  "\n\n".intercalate ((groups.filter (!·.isEmpty)).map unlines)

end ReactMigration.Printing
