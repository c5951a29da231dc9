import ReactMigration.Interchange.Declaration
import ReactMigration.Model.Basic
import ReactMigration.Report.Diagnostic

/-!
The JSON form of models and diagnostics.
-/

namespace ReactMigration.Interchange

instance : Encode Diagnostic := ⟨Diagnostic.toJson⟩

instance : Encode Report := ⟨Report.toJson⟩

instance : Encode InjectedKind := ⟨fun
  | .service => .str "service"
  | .builtin => .str "builtin"
  | .unresolved => .str "unresolved"⟩

instance : Decode InjectedKind := ⟨fun
  | .str "service" => .service
  | .str "builtin" => .builtin
  | _ => .unresolved⟩

instance : Encode Injected := ⟨fun d =>
  record "DependencyIR" [("name", .str d.name), ("type_name", .str d.typeName),
    ("kind", encode d.kind), ("target", encode d.target), ("target_unit", encode d.targetUnit),
    ("optional", .bool d.optional)]⟩

instance : Encode StateCell := ⟨fun c =>
  let origin :=
    match c.origin with
    | .field => "field"
    | .subject => "subject"
    | .twoWay => "two-way"
  record "StateCell" [("name", .str c.name), ("type", encode c.type), ("initial", encode c.initial),
    ("origin", .str origin), ("public", .bool c.isPublic)]⟩

instance : Encode RefCell := ⟨fun c =>
  record "RefCell" [("name", .str c.name), ("type", encode c.type), ("initial", encode c.initial),
    ("element", .bool c.element)]⟩

instance : Encode ConstantCell := ⟨fun c =>
  record "ConstantIR" [("name", .str c.name), ("type", encode c.type), ("value", encode c.value),
    ("static", .bool c.static), ("public", .bool c.isPublic)]⟩

instance : Encode Effect := ⟨fun x =>
  let trigger :=
    match x.trigger with
    | .mount => "mount"
    | .changes => "changes"
    | .everyRender => "every_render"
  record "EffectIR" [("trigger", .str trigger), ("body", .str x.body), ("cleanup", .str x.cleanup),
    ("deps", encode x.deps), ("origin", encode x.origin)]⟩

instance : Encode MethodModel := ⟨fun m =>
  record "MethodIR" [("name", .str m.name), ("params", encode m.params), ("body", .str m.body),
    ("return_type", encode m.returnType), ("is_async", .bool m.isAsync),
    ("asynchronous", .bool m.asynchronous), ("public", .bool m.isPublic)]⟩

instance : Encode GetterModel := ⟨fun g =>
  record "GetterIR" [("name", .str g.name), ("body", .str g.body), ("type", encode g.type)]⟩

instance : Encode TemplateReference := ⟨fun t =>
  let kind :=
    match t.kind with
    | .element => "element"
    | .template => "template"
    | .component => "component"
  record "TemplateRef" [("name", .str t.name), ("kind", .str kind),
    ("node", encode t.node.position)]⟩

/-- The members every model has. -/
def modelFields (m : ModelBase) : List (String × Json) :=
  [("name", .str m.name), ("source_path", .str m.sourcePath),
    ("dependencies", encode m.dependencies), ("state", encode m.state), ("refs", encode m.refs),
    ("constants", encode m.constants), ("methods", encode m.methods),
    ("getters", encode m.getters), ("effects", encode m.effects),
    ("subjects", encode m.subjects), ("source_imports", encode m.sourceImports)]

instance : Encode UnitModel := ⟨fun model =>
  match model with
  | .component m => record "ComponentIR" (modelFields m.toModelBase ++ [
      ("selector", encode m.selector), ("inputs", encode m.inputs), ("outputs", encode m.outputs),
      ("template", encode m.template), ("template_refs", encodeTable m.templateRefs),
      ("host_listeners", encode m.hostListeners), ("styles", encode m.styles),
      ("projects_content", .bool m.projectsContent), ("template_error", encode m.templateError),
      ("template_source", encode m.templateSource),
      ("view_children", encodeTable m.viewChildren)])
  | .service m => record "ServiceIR" (modelFields m.toModelBase)
  | .pipe m => record "PipeIR" (modelFields m.toModelBase ++ [
      ("pipe_name", .str m.pipeName), ("pure", .bool m.pure), ("transform", encode m.transform)])
  | .directive m => record "DirectiveIR" (modelFields m.toModelBase ++ [
      ("selector", encode m.selector), ("attribute", encode m.attr),
      ("directive_kind", .str (if m.directiveKind == .structural then "structural" else "attribute")),
      ("inputs", encode m.inputs), ("outputs", encode m.outputs),
      ("host_listeners", encode m.hostListeners), ("host_bindings", encode m.hostBindings),
      ("renders_markup", .bool m.rendersMarkup), ("condition", encode m.condition)])
  | .module m => record "ModuleIR" (modelFields m.toModelBase ++ [
      ("providers", encode m.providers), ("declarations", encode m.declarations),
      ("routes", encode m.routes), ("is_routing", .bool m.isRouting),
      ("route_table_unit", encode m.routeTableUnit)])
  | .routeTable m => record "RouteTableIR" (modelFields m.toModelBase ++ [
      ("routes", encode m.routes)])
  | .stub m => record "StubIR" [("name", .str m.name), ("source_path", .str m.sourcePath),
      ("unit_kind", encode m.unitKind), ("reason", .str m.reason),
      ("source_text", .str m.sourceText), ("inputs", encode m.inputs),
      ("outputs", encode m.outputs)]
  | .types m => record "TypesIR" [("name", .str m.name), ("source_path", .str m.sourcePath),
      ("text", .str m.text)]⟩

end ReactMigration.Interchange
