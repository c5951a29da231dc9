import ReactMigration.TypeScript.Parse

/-!
What stands at the top level of a unit: classes with their decorators, arrays of routes, imports,
and whether there is anything but types.
-/

namespace ReactMigration.TypeScript

/-- A class at the top level. -/
structure ClassOutline where
  node : Node
  name : String
  decorators : List Node
  exported : Bool
  deriving Inhabited

/-- The text of an optional node, empty when there is none. -/
def Source.textOf (s : Source) (n : Option Node) : String :=
  match n with
  | some n => s.text n
  | none => ""

/-- The text of a type clause without its colon, nothing when it is empty. -/
def Source.typeText (s : Source) (n : Option Node) : Option String :=
  match n with
  | none => none
  | some n =>
      let cs := (Text.slice s.chars n.start n.stop).dropWhile (· == ':')
      let t := String.ofList (Text.stripWith Text.isBlank cs)
      if t == "" then none else some t

/-- The class that a top-level node declares, in an export or on its own. -/
def classOf? (s : Source) (n : Node) : Option ClassOutline :=
  let kinds : List Kind := [.classDeclaration, .abstractClassDeclaration]
  let exported := n.kind == .exportStatement
  let declared := if exported then n.childOf? kinds else if kinds.contains n.kind then some n else none
  declared.map fun c =>
    { node := c
      name := s.textOf (c.inRole? .name)
      decorators := (if exported then n.childrenOf .decorator else []) ++ c.childrenOf .decorator
      exported }

/-- The classes at the top level, in order. -/
def classes (s : Source) (root : Node) : List ClassOutline :=
  root.children.filterMap (classOf? s)

/-- The class of a name. -/
def findClass? (s : Source) (root : Node) (name : String) : Option ClassOutline :=
  (classes s root).find? (·.name == name)

/-- The name of a decorator: the last part of what is called. -/
def decoratorName (s : Source) (d : Node) : String :=
  match d.namedChildren with
  | [] => ""
  | target :: _ =>
      let target :=
        if target.kind == .callExpression then target.inRole? .function else some target
      (Text.splitLast '.' (s.textOf target)).2

/-- The arguments of a decorator, nothing when it is not called. -/
def decoratorArguments? (d : Node) : Option (List Node) :=
  match d.namedChildren with
  | [] => none
  | target :: _ =>
      if target.kind == .callExpression then
        (target.inRole? .arguments).map fun args =>
          args.namedChildren.filter (·.kind != .comment)
      else none

/-- The arrays that a top-level node declares as variables: name, type and array. -/
def arraysOf (s : Source) (n : Node) : List (String × Option String × Node) :=
  let kinds : List Kind := [.lexicalDeclaration, .variableDeclaration]
  let declared := if n.kind == .exportStatement then n.childOf? kinds
    else if kinds.contains n.kind then some n else none
  match declared with
  | none => []
  | some d =>
      (d.childrenOf .variableDeclarator).filterMap fun v =>
        match v.inRole? .value with
        | some value =>
            if value.kind == .array then
              some (s.textOf (v.inRole? .name), s.typeText (v.inRole? .type), value)
            else none
        | none => none

/-- The types that mark an array as a table of routes. -/
def routeTypes : List String :=
  ["Routes", "Route[]", "Array<Route>"]

/-- The top-level tables of routes by name, a later one of the same name taking the place of the
earlier. -/
def routeArrays (s : Source) (root : Node) : List (String × Node) :=
  (root.children.flatMap (arraysOf s)).foldl (fun found (name, type, value) =>
    match type with
    | some t =>
        if routeTypes.contains (Text.replaceAll " " "" t) then put found name value else found
    | none => found) []
where
  /-- Writes an entry at the place of an earlier one of the same name, or last. -/
  put : List (String × Node) → String → Node → List (String × Node)
  | [], name, value => [(name, value)]
  | (k, v) :: rest, name, value =>
      if k == name then (k, value) :: rest else (k, v) :: put rest name value

/-- Top-level nodes that a unit of types alone may hold. -/
def typeUnitKinds : List Kind :=
  [.interfaceDeclaration, .typeAliasDeclaration, .enumDeclaration, .importStatement, .comment]

/-- Whether every top-level statement is an interface, type alias, enumeration or import, and at
least one is not an import. -/
def declaresTypesOnly (root : Node) : Bool :=
  let inner := root.children.map fun n =>
    if n.kind == .exportStatement then (n.childOf? typeUnitKinds).getD n else n
  inner.all (fun n => typeUnitKinds.contains n.kind) &&
    inner.any fun n => n.kind != .importStatement && n.kind != .comment

end ReactMigration.TypeScript
