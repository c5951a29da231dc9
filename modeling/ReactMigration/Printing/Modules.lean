import ReactMigration.Printing.Markup
import ReactMigration.TypeScript.Erasure

/-!
The text of each kind of generated module, and of the test of a component.
-/

namespace ReactMigration.Printing

open ReactMigration.Text

/-! ### Components -/

/-- Braces around an indented block after a head. -/
def block (head inner : String) : String :=
  head ++ " \x7b\n" ++ indent inner ++ "\n\x7d"

/-- What a component returns.  A text or a loop alone stands in a fragment. -/
def returnText (markup : Option Markup) : String :=
  let long (ls : List String) : String :=
    match ls with
    | [line] => "return " ++ line ++ ";"
    | ls => unlines (["return ("] ++ ls.map indentLine ++ [");"])
  match markup with
  | none => "return null;"
  | some (.expression "null") => "return null;"
  | some (.text t) => long (render (.fragment [.text t] none))
  | some (.loop a b c d) => long (render (.fragment [.loop a b c d] none))
  | some m => long (render m)

/-- The name of the props of a component. -/
def propsName (a : ComponentArtifact) : String :=
  let base := if a.wrapper && a.name.startsWith "with" then (a.name.drop 4).toString else a.name
  base ++ "Props"

/-- The remark that a component could not be converted, with its source. -/
def stubNote (a : ComponentArtifact) : String :=
  let source := a.stubSource.getD ""
  unlines (("// " ++ a.stubReason.getD "") ::
    if source == "" then []
    else "// Unconverted source:" :: (lines source).map fun line => trimEnd ("// " ++ line))

/-- The parts of a function body, without the empty ones. -/
def sections (parts : List String) : String :=
  "\n\n".intercalate parts

/-- The body of a component module. -/
def componentBody (a : ComponentArtifact) : String :=
  let name := propsName a
  let isStub := present a.stubReason
  let param :=
    if a.props.isEmpty then ""
    else if isStub && a.body == {} then "_props: " ++ name
    else destructure a.props none ++ ": " ++ name
  let body := bodyText a.body
  let result := if isStub then [stubNote a, "return null;"] else [returnText a.markup]
  let inner := sections ((if body == "" then [] else [body]) ++ result)
  sections ((if a.props.isEmpty then [] else [interface name a.props false]) ++
    a.moduleConstants.map (constText "const") ++
    [block ("export default function " ++ a.name ++ "(" ++ param ++ ")") inner])

/-- The body of a module that wraps components. -/
def wrapperBody (a : ComponentArtifact) : String :=
  let name := propsName a
  let inner := upperFirst a.name
  let param :=
    if a.props.isEmpty then "\x7b ...rest \x7d: Record<string, unknown>"
    else destructure a.props (some "rest") ++ ": " ++ name ++ " & Record<string, unknown>"
  let body := bodyText a.body
  let component := block ("function " ++ inner ++ "(" ++ param ++ ")")
    (sections ((if body == "" then [] else [body]) ++ [returnText a.markup]))
  let factory := unlines
    ["export default function " ++ a.name ++ "(Wrapped: ElementType) \x7b", indent component, "",
     "  return " ++ inner ++ ";", "\x7d"]
  if a.props.isEmpty then factory else sections [interface name a.props false, factory]

/-- The module of a component or of a wrapper. -/
def componentText (settings : Settings) (a : ComponentArtifact) : String :=
  compose settings a.imports (if a.wrapper then wrapperBody a else componentBody a) true

/-! ### Hooks -/

/-- What a hook returns, if anything. -/
def hookReturn (a : HookArtifact) : List String :=
  match a.returnExpression with
  | some e => ["return " ++ e ++ ";"]
  | none =>
      if a.returns.isEmpty then []
      else ["return \x7b\n" ++ ",\n".intercalate (a.returns.map ("  " ++ ·)) ++ ",\n\x7d;"]

/-- The module of a hook; options are taken apart in its first line. -/
def hookText (settings : Settings) (a : HookArtifact) : String :=
  match a.raw with
  | some raw => compose settings a.imports raw false
  | none =>
      let type := a.optionsType.getD "None"
      let hasOptions := !a.options.isEmpty
      let params := a.params.map (·.signature true) ++
        if hasOptions then ["options: " ++ type ++ " = \x7b\x7d"] else []
      let body := bodyText a.body
      let inner :=
        (if hasOptions then ["const " ++ destructure a.options none ++ " = options;"] else []) ++
        (if body == "" then [] else [body]) ++ hookReturn a
      let function := unlines
        (["export function " ++ a.name ++ "(" ++ ", ".intercalate params ++ ") \x7b"] ++
          (if inner.isEmpty then [] else [indent (sections inner)]) ++ ["\x7d"])
      compose settings a.imports
        (sections ((if hasOptions then [interface type a.options true] else []) ++ [function])) false

/-! ### Contexts -/

/-- The module of a context: its value type, the context, the provider and the hook that reads it.
-/
def contextText (settings : Settings) (a : ContextArtifact) : String :=
  let type := a.name ++ "Value"
  let keys := a.providers.map (·.name)
  let value :=
    if a.providers.isEmpty then s!"export type {type} = Record<string, never>;"
    else unlines (("export interface " ++ type ++ " \x7b") ::
      a.providers.map (fun p => "  " ++ p.name ++ ": " ++ p.type.getD "None" ++ ";") ++ ["\x7d"])
  let shape := if keys.isEmpty then "\x7b\x7d" else listed keys
  let listedKeys := ", ".intercalate keys
  let provider := unlines (commentLine a.comment ++
    ["export function " ++ a.provider ++ "(\x7b children \x7d: \x7b children?: ReactNode \x7d) \x7b"] ++
    a.providers.map (fun p => "  const " ++ p.name ++ " = " ++ p.value ++ ";") ++
    [s!"  const value = useMemo(() => ({shape}), [{listedKeys}]);",
     "  return <" ++ a.name ++ ".Provider value=\x7bvalue\x7d>\x7bchildren\x7d</" ++ a.name ++
       ".Provider>;", "\x7d"])
  let message := quoteText s!"{a.hook} must be used within <{a.provider}>"
  let hook := unlines
    ["export function " ++ a.hook ++ "(): " ++ type ++ " \x7b",
     s!"  const value = useContext({a.name});", "  if (value === null) \x7b",
     s!"    throw new Error({message});", "  \x7d", "  return value;", "\x7d"]
  compose settings a.imports
    (sections [value, s!"export const {a.name} = createContext<{type} | null>(null);", provider, hook])
    true

/-! ### Routes -/

/-- The longest entry that is put on one line. -/
def maxEntry : Nat := 96

/-- The fields of an entry, without its children. -/
def entryFields (path : Option String) (index : Bool) (element redirect : Option String) :
    List String :=
  let place :=
    if index then ["index: true"] else path.toList.map fun p => "path: " ++ quoteText p
  let shown :=
    match redirect, element with
    | some target, _ => ["element: <Navigate to=" ++ braced (quoteText target) ++ " replace />"]
    | none, some name => ["element: <" ++ name ++ " />"]
    | none, none => []
  place ++ shown

/-- Indents a line twice, an empty one staying empty. -/
def indentTwice (line : String) : String :=
  if line == "" then line else indentBy 2 line

mutual

/-- The lines of a route entry. -/
def entryLines : RouteEntry → List String
  | .mk path index element redirect children comment =>
      let fields := entryFields path index element redirect
      let single := listed fields ++ ","
      let inner := childEntryLines children
      if children.isEmpty && single.length ≤ maxEntry then commentLine comment ++ [single]
      else commentLine comment ++ ["\x7b"] ++ fields.map (fun f => "  " ++ f ++ ",") ++
        (if children.isEmpty then [] else ["  children: ["] ++ inner ++ ["  ],"]) ++ ["\x7d,"]

/-- The lines of the children of an entry. -/
def childEntryLines : List RouteEntry → List String
  | [] => []
  | r :: rs => (entryLines r).map indentTwice ++ childEntryLines rs

end

/-- The lines of a table of routes. -/
def tableLines (entries : List RouteEntry) : List String :=
  entries.flatMap fun e => (entryLines e).map indentLine

/-- The module of a table of routes and the component that shows it. -/
def routesText (settings : Settings) (a : RouteArtifact) : String :=
  let table := unlines
    ([s!"export const {a.table}: RouteObject[] = ["] ++ tableLines a.routes ++ ["];"])
  let component := unlines
    ["export default function " ++ a.name ++ "() \x7b", s!"  return useRoutes({a.table});", "\x7d"]
  compose settings a.imports (sections [table, component]) true

/-! ### Functions and styles -/

/-- The module of plain functions and values. -/
def utilText (settings : Settings) (a : UtilArtifact) : String :=
  match a.raw with
  | some raw => compose settings a.imports raw false
  | none =>
      let declarations := a.constants.map (constText "const") ++ a.mutables.map (constText "let")
      compose settings a.imports
        (sections ((if declarations.isEmpty then [] else [unlines declarations]) ++
          a.functions.map fun f => functionText (a.exported.contains f.name) f)) false

/-- Selectors that reach into other components, which generated styles do not need. -/
def piercing : Pattern :=
  .oneOf ["::ng-deep", "/deep/", ">>>"] ++ .blanks

/-- A stylesheet without selectors that reach into other components. -/
def styleText (name : String) (styles : List String) : String :=
  let head := s!"/* Styles for {name} component */\n"
  let blocks := (styles.map fun s => trim (piercing.replace "" s)).filter (· ≠ "")
  if styles.isEmpty then head else head ++ "\n" ++ sections blocks ++ "\n"

/-! ### Tests -/

/-- The types for which an empty list will do. -/
def listType : Pattern :=
  (.text "[]" <|>
    (.first ++ .opt (.text "Readonly") ++ .text "Array<" ++ .many (· != '\n') 0 true ++ .text ">")) ++
    .last

/-- A value for a required prop, nothing for one that may be left out. -/
def placeholder (p : PropField) : Option String :=
  if p.optional || p.default.isSome then none
  else
    let type := trim (if p.type == "" then "any" else p.type)
    let exactly (name : String) : Bool := ((.text name ++ .last : Pattern).lead? type).isSome
    some (
      if occursIn "=>" type then "() => undefined"
      else if exactly "string" then "''"
      else if exactly "number" then "0"
      else if exactly "boolean" then "false"
      else if listType.occurs type then "[]"
      else "\x7b\x7d as any")

/-- Whether a component needs a router around it. -/
def usesRouter (a : ComponentArtifact) : Bool :=
  a.imports.any fun s => s.module == some "react-router-dom" && !s.typeOnly

/-- The test that a component renders. -/
def testText (settings : Settings) (a : ComponentArtifact) : String :=
  let props := a.props.filterMap fun p => (placeholder p).map fun v => p.name ++ ": " ++ v
  let element := "<" ++ a.name ++ (if props.isEmpty then "" else " \x7b...props\x7d") ++ " />"
  let element := if usesRouter a then "<MemoryRouter>" ++ element ++ "</MemoryRouter>" else element
  let setup :=
    (if props.isEmpty then []
     else ["const props = \x7b"] ++ props.map (fun p => "  " ++ p ++ ",") ++ ["\x7d;"]) ++
    ["const \x7b container \x7d = render(" ++ element ++ ");",
     "expect(container).toBeTruthy();"]
  let body := unlines
    ["describe('" ++ a.name ++ "', () => \x7b", "  it('renders without crashing', () => \x7b",
     indentBy 2 (unlines setup), "  \x7d);", "\x7d);"]
  let path := settings.importPath a.ref
  let imports :=
    (if settings.reactMajor < 17 then ["import React from 'react';"] else []) ++
    ["import \x7b render \x7d from '@testing-library/react';"] ++
    (if usesRouter a then ["import \x7b MemoryRouter \x7d from 'react-router-dom';"] else []) ++
    [s!"import {a.name} from '{path}';"]
  unlines imports ++ "\n\n" ++ body ++ "\n"

/-! ### All modules -/

/-- The typed text of a module. -/
def typedText (settings : Settings) : Artifact → String
  | .component a => componentText settings a
  | .hook a => hookText settings a
  | .context a => contextText settings a
  | .routes a => routesText settings a
  | .util a => utilText settings a
  | .style a => styleText a.name a.styles

/-- The text of a module, without types if the output is untyped; a module of types alone has no
untyped text. -/
def text (settings : Settings) (typescript : Bool) (a : Artifact) : Option String :=
  match a with
  | .style s => some (styleText s.name s.styles)
  | .util u =>
      if u.typedOnly && !typescript then none
      else some (inLanguage (utilText settings u))
  | other => some (inLanguage (typedText settings other))
where
  /-- Drops the types if the output is untyped. -/
  inLanguage (typed : String) : String :=
    if typescript then typed else TypeScript.eraseTypes typed

/-- The text of a component's test. -/
def testIn (settings : Settings) (typescript : Bool) (a : ComponentArtifact) : String :=
  let typed := testText settings a
  if typescript then typed else TypeScript.eraseTypes typed

end ReactMigration.Printing
