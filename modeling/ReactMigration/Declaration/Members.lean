import ReactMigration.Declaration.Classify

/-!
The members of a class: methods and fields with their decorators, and what the decorators make of
them.
-/

namespace ReactMigration.Declaration

open ReactMigration.Text
open ReactMigration.TypeScript (Source Node)

/-- The methods a framework calls by itself. -/
def lifecycleNames : List String :=
  ["ngOnChanges", "ngOnInit", "ngDoCheck", "ngAfterContentInit", "ngAfterContentChecked",
   "ngAfterViewInit", "ngAfterViewChecked", "ngOnDestroy"]

/-- What the members of a class contribute to its declaration. -/
structure Members where
  dependencies : List Dependency := []
  methods : List MethodDecl := []
  fields : List FieldDecl := []
  lifecycleHooks : List String := []
  inputs : List InputProp := []
  outputs : List OutputProp := []
  hostListeners : List HostListener := []
  hostBindings : List HostBinding := []
  deriving Inhabited

/-- The text of a node over several lines, as if it started at the first column. -/
def blockText (s : Source) (n : Node) : String :=
  trim (dedent (spaces (s.column n.start) ++ s.text n))

/-- A decorator with evaluated arguments. -/
def decoratorInfo (s : Source) (d : Node) : DecoratorInfo where
  name := TypeScript.decoratorName s d
  args := ((TypeScript.decoratorArguments? d).getD []).map (Metadata.ofNode s)
  text := s.text d

/-- Who may use a member. -/
def visibilityOf (s : Source) (n : Node) : Visibility :=
  match s.textOf (n.childOf? [.accessibilityModifier]) with
  | "private" => .classOnly
  | "protected" => .subclasses
  | _ => .anywhere

/-- The nodes of a parameter list that are parameters. -/
def parameterNodes (list : Option Node) : List Node :=
  match list with
  | some n => n.namedChildren.filter fun p =>
      p.kind == .requiredParameter || p.kind == .optionalParameter
  | none => []

/-- A parameter. -/
def paramOf (s : Source) (p : Node) : Param where
  name := s.textOf (p.inRole? .pattern)
  type := s.typeText (p.inRole? .type)
  optional := p.kind == .optionalParameter
  default := (p.inRole? .value).map s.text

/-- The value of the first argument. -/
def DecoratorInfo.first (d : DecoratorInfo) (otherwise : Metadata) : Metadata :=
  d.args.headD otherwise

/-- What a constructor parameter asks for: its type, or the token of an injection decorator. -/
def dependencyOf (s : Source) (p : Node) : Dependency :=
  let decorators := (p.childrenOf .decorator).map (decoratorInfo s)
  let token := decorators.foldl (fun t d =>
    if d.name == "Inject" then some (DecoratorInfo.first d (.str "")).name else t) none
  let optional := p.kind == .optionalParameter || decorators.any (·.name == "Optional")
  let written := s.typeText (p.inRole? .type)
  let typeName := written.getD (if present token then token.getD "" else "any")
  { name := s.textOf (p.inRole? .pattern), typeName, optional, token }

/-- Removes the smallest indentation of the lines with content and empties blank lines. -/
def dedentLines (rows : List String) : String :=
  let indents := (rows.filter (!isBlankText ·)).map fun row =>
    (row.toList.takeWhile isBlank).length
  let cut := indents.foldl min (indents.headD 0)
  unlines (rows.map fun row =>
    if isBlankText row then "" else String.ofList (row.toList.drop cut))

/-- The body of a method without its braces. -/
def bodyText (s : Source) (body : Option Node) : String :=
  match body with
  | none => ""
  | some b =>
      let t := blockText s b
      let inside := if t.startsWith "\x7b" && t.endsWith "\x7d" then Metadata.inner t else t
      trimNewlines (dedentLines (splitAt '\n' inside))

/-- The statements of a method body, comments included. -/
def statementsOf (s : Source) (body : Option Node) : List Statement :=
  match body with
  | none => []
  | some b => b.namedChildren.map fun c => ⟨c.kind.name, blockText s c⟩

/-- The outer name and the obligation that an input decorator states. -/
def inputOptions (d : DecoratorInfo) : Option String × Bool :=
  match DecoratorInfo.first d .none with
  | .str outer => (some outer, false)
  | .dict members =>
      let arg := Metadata.dict members
      let required :=
        match arg.get "required" with
        | .bool b => b
        | _ => false
      ((arg.get "alias").str?, required)
  | _ => (none, false)

/-- What the decorators of a method add. -/
def applyMethodDecorator (method : MethodDecl) (m : Members) (d : DecoratorInfo) : Members :=
  if d.name == "Input" && method.accessor == some .set then
    let (outerName, required) := inputOptions d
    let type := (method.params.head?.bind (·.type)).getD "any"
    { m with inputs := m.inputs ++
        [{ name := method.name, type, optional := !required, outerName, isSetter := true }] }
  else if d.name == "HostListener" then
    let args :=
      match d.args with
      | _ :: .list extra :: _ => extra.map Metadata.text
      | _ => []
    { m with hostListeners := m.hostListeners ++
        [{ event := (DecoratorInfo.first d (.str "")).text, handler := method.name, args }] }
  else if d.name == "HostBinding" then
    { m with hostBindings := m.hostBindings ++
        [{ target := (DecoratorInfo.first d (.str method.name)).text, member := method.name }] }
  else m

/-- A method as declared. -/
def methodOf (s : Source) (n : Node) (decorators : List DecoratorInfo) : MethodDecl :=
  let body := n.inRole? .body
  { name := s.textOf (n.inRole? .name)
    params := (parameterNodes (n.inRole? .parameters)).map (paramOf s)
    returnType := s.typeText (n.inRole? .returnType)
    body := bodyText s body
    statements := statementsOf s body
    isAsync := n.hasToken "async"
    accessor := if n.hasToken "get" then some .get else if n.hasToken "set" then some .set else none
    decorators
    visibility := visibilityOf s n
    line := (s.row n.start + 1 : Nat) }

/-- Adds a method. -/
def addMethod (s : Source) (m : Members) (n : Node) (decorators : List Node) : Members :=
  let infos := decorators.map (decoratorInfo s)
  let method := methodOf s n infos
  let injected :=
    if method.name == "constructor" then
      (parameterNodes (n.inRole? .parameters)).map (dependencyOf s)
    else []
  let m := { m with dependencies := m.dependencies ++ injected }
  let m := infos.foldl (applyMethodDecorator method) m
  let hooks :=
    if lifecycleNames.contains method.name && !m.lifecycleHooks.contains method.name then
      [method.name]
    else []
  { m with methods := m.methods ++ [method], lifecycleHooks := m.lifecycleHooks ++ hooks }

/-- The payload type of an event emitter. -/
def emitterPattern : Pattern :=
  .text "EventEmitter" ++ .blanks ++ .text "<" ++ .group 1 (.many (fun _ => true) 1 true) ++ .text ">"

/-- The type of what an output emits, from its type or else its initial value. -/
def emitterPayload (type initializer : Option String) : String :=
  match [type, initializer].findSome? fun t => emitterPattern.find? (t.getD "") with
  | some m => trim (m.group 1)
  | none => "void"

/-- A plain decimal number. -/
def numberPattern : Pattern :=
  .opt (.text "-") ++ .many isDecimal 1 true ++
    .opt (.text "." ++ .many isDecimal 1 true)

/-- The type of an initial value. -/
def inferType (initializer : Option String) : String :=
  let value := trim (initializer.getD "")
  let first := value.toList.head?
  if !present initializer then "any"
  else if first == some '\'' || first == some '"' || first == some '\x60' then "string"
  else if value == "true" || value == "false" then "boolean"
  else if numberPattern.covers value then "number"
  else if first == some '[' then "any[]"
  else "any"

/-- A field that is filled by injection: what it asks for. -/
def injectPattern : Pattern :=
  .first ++ .text "inject" ++ .blanks ++ .text "(" ++ .blanks ++
    .group 1 (.many (fun c => isWord c || c == '.') 1 true)

/-- Adds a field: an input, an output, a dependency or a plain field. -/
def addField (s : Source) (m : Members) (n : Node) (decorators : List Node) : Members :=
  let name := s.textOf (n.inRole? .name)
  let type := s.typeText (n.inRole? .type)
  let initializer := (n.inRole? .value).map s.text
  let infos := decorators.map (decoratorInfo s)
  match infos.find? (·.name == "Input") with
  | some d =>
      let (outerName, required) := inputOptions d
      let optional := (n.hasToken "?" || initializer.isSome) && !required
      { m with inputs := m.inputs ++
          [{ name, type := type.getD (inferType initializer), optional, outerName,
             default := initializer }] }
  | none =>
      match infos.find? (·.name == "Output") with
      | some d =>
          { m with outputs := m.outputs ++
              [{ name, payloadType := emitterPayload type initializer,
                 outerName := (DecoratorInfo.first d .none).str? }] }
      | none =>
          match injectPattern.lead? (initializer.getD "") with
          | some found =>
              { m with dependencies := m.dependencies ++ [{ name, typeName := found.group 1 }] }
          | none =>
              let bindings := (infos.filter (·.name == "HostBinding")).map fun d =>
                { target := (DecoratorInfo.first d (.str name)).text, member := name : HostBinding }
              let field : FieldDecl :=
                { name, type, initializer, decorators := infos
                  readonly := n.hasToken "readonly"
                  static := n.hasToken "static"
                  visibility := visibilityOf s n
                  line := (s.row n.start + 1 : Nat) }
              { m with hostBindings := m.hostBindings ++ bindings, fields := m.fields ++ [field] }

/-- Walks the members of a class body; decorators wait for the method or field after them. -/
def collectMembers (s : Source) : List Node → Members → List Node → Members
  | _, m, [] => m
  | pending, m, n :: ns =>
      if n.kind == .decorator then collectMembers s (pending ++ [n]) m ns
      else if n.kind == .methodDefinition then
        collectMembers s [] (addMethod s m n (pending ++ n.childrenOf .decorator)) ns
      else if n.kind == .fieldDefinition then
        collectMembers s [] (addField s m n (pending ++ n.childrenOf .decorator)) ns
      else collectMembers s pending m ns

/-- The members of a class. -/
def membersOf (s : Source) (classNode : Node) : Members :=
  match classNode.inRole? .body with
  | some body => collectMembers s [] {} body.children
  | none => {}

end ReactMigration.Declaration
