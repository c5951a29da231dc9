import ReactMigration.Declaration.Basic
import ReactMigration.Interchange.Template

/-!
The JSON form of declarations.
-/

namespace ReactMigration.Interchange

mutual

/-- A metadata value as JSON. -/
def encodeMetadata : Metadata → Json
  | .none => .null
  | .bool b => .bool b
  | .int n => .int n
  | .float x => .obj [("float", .str (Json.numberFormat.text x))]
  | .str s => .str s
  | .expr t => record "Expr" [("text", .str t)]
  | .call callee args t =>
      record "Call" [("callee", .str callee), ("args", .arr (encodeMetadataList args)),
        ("text", .str t)]
  | .list items => .arr (encodeMetadataList items)
  | .dict members => .obj [("dict", .arr (encodeMembers members))]

/-- Metadata values as JSON values. -/
def encodeMetadataList : List Metadata → List Json
  | [] => []
  | v :: vs => encodeMetadata v :: encodeMetadataList vs

/-- The members of a metadata object as pairs. -/
def encodeMembers : List (String × Metadata) → List Json
  | [] => []
  | (k, v) :: rest => .arr [.str k, encodeMetadata v] :: encodeMembers rest

end

instance : Encode Metadata := ⟨encodeMetadata⟩

/-- Reads a metadata value of bounded depth. -/
def decodeMetadata : Nat → Json → Metadata
  | 0, _ => .none
  | fuel + 1, j =>
      match j with
      | .null => .none
      | .bool b => .bool b
      | .int n => .int n
      | .float x => .float x
      | .str s => .str s
      | .arr items => .list (items.map (decodeMetadata fuel))
      | .obj _ =>
          match kindOf j with
          | "Expr" => .expr (field j "text" "")
          | "Call" =>
              let args : List Json := field j "args" []
              .call (field j "callee" "") (args.map (decodeMetadata fuel)) (field j "text" "")
          | _ =>
              match j.get? "float" with
              | some (.str t) => (Metadata.decimal? t.toList).elim .none .float
              | _ =>
                  let members : Table Json := decodeTable j
                  .dict (members.map fun (k, v) => (k, decodeMetadata fuel v))

instance : Decode Metadata := ⟨decodeMetadata depthLimit⟩

instance : Encode UnitKind := ⟨fun k => .str k.label⟩

instance : Decode UnitKind := ⟨fun
  | .str "service" => .service
  | .str "pipe" => .pipe
  | .str "directive" => .directive
  | .str "module" => .module
  | .str "routes" => .routes
  | _ => .component⟩

instance : Encode Param := ⟨fun p =>
  record "Param" [("name", .str p.name), ("type", encode p.type), ("optional", .bool p.optional),
    ("default", encode p.default)]⟩

instance : Decode Param := ⟨fun j =>
  { name := field j "name" "", type := field j "type" none, optional := field j "optional" false,
    default := field j "default" none }⟩

instance : Encode Statement := ⟨fun s =>
  record "Statement" [("kind", .str s.kind), ("text", .str s.text)]⟩

instance : Decode Statement := ⟨fun j => ⟨field j "kind" "", field j "text" ""⟩⟩

instance : Encode DecoratorInfo := ⟨fun d =>
  record "DecoratorInfo" [("name", .str d.name), ("args", encode d.args), ("text", .str d.text)]⟩

instance : Decode DecoratorInfo := ⟨fun j =>
  { name := field j "name" "", args := field j "args" [], text := field j "text" "" }⟩

instance : Encode Accessor := ⟨fun
  | .get => .str "get"
  | .set => .str "set"⟩

instance : Decode Accessor := ⟨fun
  | .str "set" => .set
  | _ => .get⟩

instance : Encode Visibility := ⟨fun
  | .anywhere => .str "public"
  | .classOnly => .str "private"
  | .subclasses => .str "protected"⟩

instance : Decode Visibility := ⟨fun
  | .str "private" => .classOnly
  | .str "protected" => .subclasses
  | _ => .anywhere⟩

instance : Encode MethodDecl := ⟨fun m =>
  record "MethodDecl" [("name", .str m.name), ("params", encode m.params),
    ("return_type", encode m.returnType), ("body", .str m.body),
    ("statements", encode m.statements), ("is_async", .bool m.isAsync),
    ("accessor", encode m.accessor), ("decorators", encode m.decorators),
    ("visibility", encode m.visibility), ("line", .int m.line)]⟩

instance : Decode MethodDecl := ⟨fun j =>
  { name := field j "name" "", params := field j "params" []
    returnType := field j "return_type" none, body := field j "body" ""
    statements := field j "statements" [], isAsync := field j "is_async" false
    accessor := field j "accessor" none, decorators := field j "decorators" []
    visibility := field j "visibility" .anywhere, line := field j "line" 0 }⟩

instance : Encode FieldDecl := ⟨fun f =>
  record "FieldDecl" [("name", .str f.name), ("type", encode f.type),
    ("initializer", encode f.initializer), ("decorators", encode f.decorators),
    ("readonly", .bool f.readonly), ("static", .bool f.static),
    ("visibility", encode f.visibility), ("line", .int f.line)]⟩

instance : Decode FieldDecl := ⟨fun j =>
  { name := field j "name" "", type := field j "type" none
    initializer := field j "initializer" none, decorators := field j "decorators" []
    readonly := field j "readonly" false, static := field j "static" false
    visibility := field j "visibility" .anywhere, line := field j "line" 0 }⟩

instance : Encode InputProp := ⟨fun p =>
  record "InputProp" [("name", .str p.name), ("type", .str p.type), ("optional", .bool p.optional),
    ("alias", encode p.outerName), ("default", encode p.default), ("is_setter", .bool p.isSetter)]⟩

instance : Decode InputProp := ⟨fun j =>
  { name := field j "name" "", type := field j "type" "any", optional := field j "optional" false
    outerName := field j "alias" none, default := field j "default" none
    isSetter := field j "is_setter" false }⟩

instance : Encode OutputProp := ⟨fun p =>
  record "OutputProp" [("name", .str p.name), ("payload_type", .str p.payloadType),
    ("alias", encode p.outerName)]⟩

instance : Decode OutputProp := ⟨fun j =>
  { name := field j "name" "", payloadType := field j "payload_type" "void"
    outerName := field j "alias" none }⟩

instance : Encode Dependency := ⟨fun d =>
  record "Dependency" [("name", .str d.name), ("type_name", .str d.typeName),
    ("optional", .bool d.optional), ("token", encode d.token)]⟩

instance : Decode Dependency := ⟨fun j =>
  { name := field j "name" "", typeName := field j "type_name" "", optional := field j "optional" false
    token := field j "token" none }⟩

instance : Encode HostListener := ⟨fun l =>
  record "HostListener" [("event", .str l.event), ("handler", .str l.handler),
    ("args", encode l.args)]⟩

instance : Decode HostListener := ⟨fun j =>
  { event := field j "event" "", handler := field j "handler" "", args := field j "args" [] }⟩

instance : Encode HostBinding := ⟨fun b =>
  record "HostBinding" [("target", .str b.target), ("member", .str b.member)]⟩

instance : Decode HostBinding := ⟨fun j => ⟨field j "target" "", field j "member" ""⟩⟩

instance : Encode ImportDecl := ⟨fun d =>
  record "ImportDecl" [("module", .str d.module), ("names", encode d.names),
    ("default", encode d.default), ("namespace", encode d.whole)]⟩

instance : Decode ImportDecl := ⟨fun j =>
  { module := field j "module" "", names := field j "names" [], default := field j "default" none
    whole := field j "namespace" none }⟩

mutual

/-- A declared route as JSON. -/
def encodeRoute : RouteDecl → Json
  | .mk path component redirectTo pathMatch children loadChildren guards title =>
      record "RouteDecl" [("path", .str path), ("component", encode component),
        ("redirect_to", encode redirectTo), ("path_match", encode pathMatch),
        ("children", .arr (encodeRoutes children)), ("load_children", encode loadChildren),
        ("guards", encode guards), ("title", encode title)]

/-- Declared routes as JSON values. -/
def encodeRoutes : List RouteDecl → List Json
  | [] => []
  | r :: rs => encodeRoute r :: encodeRoutes rs

end

instance : Encode RouteDecl := ⟨encodeRoute⟩

/-- Reads a declared route of bounded depth. -/
def decodeRoute : Nat → Json → RouteDecl
  | 0, _ => default
  | fuel + 1, j =>
      let children : List Json := field j "children" []
      .mk (field j "path" "") (field j "component" none) (field j "redirect_to" none)
        (field j "path_match" none) (children.map (decodeRoute fuel))
        (field j "load_children" none) (field j "guards" []) (field j "title" none)

instance : Decode RouteDecl := ⟨decodeRoute depthLimit⟩

/-- The members every declaration has. -/
def baseFields (d : DeclBase) : List (String × Json) :=
  [("name", .str d.name), ("source_path", .str d.sourcePath),
    ("dependencies", encode d.dependencies), ("methods", encode d.methods),
    ("fields", encode d.fields), ("lifecycle_hooks", encode d.lifecycleHooks),
    ("source_imports", encode d.sourceImports)]

instance : Encode Declaration := ⟨fun decl =>
  match decl with
  | .component d => record "ComponentDecl" (baseFields d.toDeclBase ++ [
      ("selector", encode d.selector), ("inputs", encode d.inputs), ("outputs", encode d.outputs),
      ("template", encode d.template), ("template_url", encode d.templateUrl),
      ("template_nodes", encode d.templateNodes), ("template_error", encode d.templateError),
      ("styles", encode d.styles), ("style_urls", encode d.styleUrls),
      ("missing_resources", encode d.missingResources),
      ("host_listeners", encode d.hostListeners), ("standalone", .bool d.standalone)])
  | .service d => record "ServiceDecl" (baseFields d.toDeclBase ++ [
      ("provided_in", encode d.providedIn)])
  | .pipe d => record "PipeDecl" (baseFields d.toDeclBase ++ [
      ("pipe_name", .str d.pipeName), ("pure", .bool d.pure), ("transform", encode d.transform)])
  | .directive d => record "DirectiveDecl" (baseFields d.toDeclBase ++ [
      ("selector", encode d.selector),
      ("directive_kind", .str (if d.directiveKind == .structural then "structural" else "attribute")),
      ("inputs", encode d.inputs), ("outputs", encode d.outputs),
      ("host_listeners", encode d.hostListeners), ("host_bindings", encode d.hostBindings),
      ("renders_markup", .bool d.rendersMarkup)])
  | .module d => record "ModuleDecl" (baseFields d.toDeclBase ++ [
      ("declarations", encode d.declarations), ("imports", encode d.imports),
      ("exports", encode d.exports), ("providers", encode d.providers),
      ("bootstrap", encode d.bootstrap), ("routes", encode d.routes),
      ("route_source", encode d.routeSource)])
  | .routes d => record "RouteConfigDecl" (baseFields d.toDeclBase ++ [("routes", encode d.routes)])⟩

/-- Reads the members every declaration has. -/
def decodeBase (j : Json) : DeclBase :=
  { name := field j "name" "", sourcePath := field j "source_path" ""
    dependencies := field j "dependencies" [], methods := field j "methods" []
    fields := field j "fields" [], lifecycleHooks := field j "lifecycle_hooks" []
    sourceImports := field j "source_imports" [] }

instance : Decode DirectiveKind := ⟨fun
  | .str "structural" => .structural
  | _ => .attribute⟩

instance : Decode Declaration := ⟨fun j =>
  let base := decodeBase j
  match kindOf j with
  | "ServiceDecl" => .service { base with providedIn := field j "provided_in" none }
  | "PipeDecl" => .pipe { base with
      pipeName := field j "pipe_name" "", pure := field j "pure" true
      transform := field j "transform" none }
  | "DirectiveDecl" => .directive { base with
      selector := field j "selector" none, directiveKind := field j "directive_kind" .attribute
      inputs := field j "inputs" [], outputs := field j "outputs" []
      hostListeners := field j "host_listeners" [], hostBindings := field j "host_bindings" []
      rendersMarkup := field j "renders_markup" false }
  | "ModuleDecl" => .module { base with
      declarations := field j "declarations" [], imports := field j "imports" []
      exports := field j "exports" [], providers := field j "providers" []
      bootstrap := field j "bootstrap" [], routes := field j "routes" []
      routeSource := field j "route_source" none }
  | "RouteConfigDecl" => .routes { base with routes := field j "routes" [] }
  | _ => .component { base with
      selector := field j "selector" none, inputs := field j "inputs" []
      outputs := field j "outputs" [], template := field j "template" none
      templateUrl := field j "template_url" none, templateNodes := field j "template_nodes" []
      styles := field j "styles" [], styleUrls := field j "style_urls" []
      missingResources := field j "missing_resources" []
      hostListeners := field j "host_listeners" [], standalone := field j "standalone" false }⟩

end ReactMigration.Interchange
