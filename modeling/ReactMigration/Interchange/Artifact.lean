import ReactMigration.Interchange.Model
import ReactMigration.Target.Artifact

/-!
The JSON form of generated modules.
-/

namespace ReactMigration.Interchange

instance : Encode Category := ⟨fun c => .str c.label⟩

instance : Decode Category := ⟨fun j =>
  (Category.all.find? (·.label == (decode j : String))).getD .components⟩

instance : Encode ArtifactRef := ⟨fun r =>
  record "ArtifactRef" [("category", encode r.category), ("name", .str r.name),
    ("source_path", .str r.sourcePath), ("extension", encode r.extension)]⟩

instance : Decode ArtifactRef := ⟨fun j =>
  { category := field j "category" .components, name := field j "name" ""
    sourcePath := field j "source_path" "", extension := field j "extension" none }⟩

instance : Encode ImportSpec := ⟨fun s =>
  record "ImportSpec" [("names", encode s.names), ("default", encode s.default),
    ("module", encode s.module), ("target", encode s.target), ("side_effect", .bool s.sideEffect),
    ("type_only", .bool s.typeOnly), ("prune", .bool s.prune)]⟩

instance : Decode ImportSpec := ⟨fun j =>
  { names := field j "names" [], default := field j "default" none
    module := field j "module" none, target := field j "target" none
    sideEffect := field j "side_effect" false, typeOnly := field j "type_only" false
    prune := field j "prune" false }⟩

/-! ### Markup -/

instance : Encode MarkupAttr := ⟨fun a =>
  record "JsxAttr" [("name", .str a.name), ("value", encode a.value),
    ("expression", .bool a.expression), ("spread", .bool a.spread)]⟩

instance : Decode MarkupAttr := ⟨fun j =>
  { name := field j "name" "", value := field j "value" none
    expression := field j "expression" true, spread := field j "spread" false }⟩

mutual

/-- The JSON form of a markup node. -/
def encodeMarkup : Markup → Json
  | .element tag attrs children => record "JsxElement"
      [("tag", .str tag), ("attrs", encode attrs), ("children", .arr (encodeMarkups children))]
  | .text t => record "JsxText" [("text", .str t)]
  | .expression code => record "JsxExpression" [("code", .str code)]
  | .fragment children key => record "JsxFragment"
      [("children", .arr (encodeMarkups children)), ("key", encode key)]
  | .conditional condition shown otherwise => record "JsxConditional"
      [("condition", .str condition), ("then", encodeMarkup shown),
        ("otherwise", encodeMarkup? otherwise)]
  | .loop iterable item index body => record "JsxMap"
      [("iterable", .str iterable), ("item", .str item), ("index", .str index),
        ("body", encodeMarkup body)]
  | .renderProp component attrs params body => record "JsxRenderProp"
      [("component", .str component), ("attrs", encode attrs), ("params", encode params),
        ("body", encodeMarkup body)]
  | .remark comment => record "JsxStub" [("comment", .str comment)]

/-- Nodes as JSON values. -/
def encodeMarkups : List Markup → List Json
  | [] => []
  | m :: ms => encodeMarkup m :: encodeMarkups ms

/-- A node as JSON, null if there is none. -/
def encodeMarkup? : Option Markup → Json
  | none => .null
  | some m => encodeMarkup m

end

instance : Encode Markup := ⟨encodeMarkup⟩

/-- Reads a markup node within a depth; nothing stands for a missing node. -/
def decodeMarkupWithin : Nat → Json → Markup
  | 0, _ => .nothing
  | depth + 1, j =>
      let children : List Markup :=
        match j.get? "children" with
        | some (.arr items) => items.map (decodeMarkupWithin depth)
        | _ => []
      let node (key : String) : Markup :=
        match j.get? key with
        | some v => decodeMarkupWithin depth v
        | none => .nothing
      match kindOf j with
      | "JsxElement" => .element (field j "tag" "") (field j "attrs" []) children
      | "JsxText" => .text (field j "text" "")
      | "JsxExpression" => .expression (field j "code" "")
      | "JsxFragment" => .fragment children (field j "key" none)
      | "JsxConditional" =>
          .conditional (field j "condition" "") (node "then")
            (match j.get? "otherwise" with
             | none => none
             | some .null => none
             | some v => some (decodeMarkupWithin depth v))
      | "JsxMap" => .loop (field j "iterable" "") (field j "item" "") (field j "index" "") (node "body")
      | "JsxRenderProp" =>
          .renderProp (field j "component" "") (field j "attrs" []) (field j "params" []) (node "body")
      | "JsxStub" => .remark (field j "comment" "")
      | _ => .nothing

instance : Decode Markup := ⟨decodeMarkupWithin depthLimit⟩

/-! ### Function bodies -/

instance : Encode PropField := ⟨fun p =>
  record "PropField" [("name", .str p.name), ("type", .str p.type), ("optional", .bool p.optional),
    ("default", encode p.default), ("local", encode p.binding)]⟩

instance : Decode PropField := ⟨fun j =>
  { name := field j "name" "", type := field j "type" "any", optional := field j "optional" false
    default := field j "default" none, binding := field j "local" none }⟩

instance : Encode StateDecl := ⟨fun s =>
  record "StateDecl" [("name", .str s.name), ("setter", .str s.setter),
    ("initial", encode s.initial), ("type", encode s.type)]⟩

instance : Decode StateDecl := ⟨fun j =>
  { name := field j "name" "", setter := field j "setter" "", initial := field j "initial" none
    type := field j "type" none }⟩

instance : Encode RefDecl := ⟨fun r =>
  record "RefDecl" [("name", .str r.name), ("initial", encode r.initial), ("type", encode r.type)]⟩

instance : Decode RefDecl := ⟨fun j =>
  { name := field j "name" "", initial := field j "initial" none, type := field j "type" none }⟩

instance : Encode ConstDecl := ⟨fun c =>
  record "ConstDecl" [("name", .str c.name), ("value", .str c.value), ("type", encode c.type)]⟩

instance : Decode ConstDecl := ⟨fun j =>
  { name := field j "name" "", value := field j "value" "", type := field j "type" none }⟩

instance : Encode MemoDecl := ⟨fun m =>
  record "MemoDecl" [("name", .str m.name), ("expression", .str m.expression),
    ("deps", encode m.deps)]⟩

instance : Decode MemoDecl := ⟨fun j =>
  { name := field j "name" "", expression := field j "expression" "", deps := field j "deps" [] }⟩

instance : Encode EffectDecl := ⟨fun x =>
  record "EffectDecl" [("body", .str x.body), ("cleanup", .str x.cleanup), ("deps", encode x.deps),
    ("comment", encode x.comment)]⟩

instance : Decode EffectDecl := ⟨fun j =>
  { body := field j "body" "", cleanup := field j "cleanup" "", deps := field j "deps" none
    comment := field j "comment" none }⟩

instance : Encode FunctionDecl := ⟨fun f =>
  record "FunctionDecl" [("name", .str f.name), ("params", encode f.params), ("body", .str f.body),
    ("return_type", encode f.returnType), ("is_async", .bool f.isAsync),
    ("comment", encode f.comment)]⟩

instance : Decode FunctionDecl := ⟨fun j =>
  { name := field j "name" "", params := field j "params" [], body := field j "body" ""
    returnType := field j "return_type" none, isAsync := field j "is_async" false
    comment := field j "comment" none }⟩

instance : Encode FunctionBody := ⟨fun b =>
  record "FunctionBody" [("hook_calls", encode b.hookCalls), ("state", encode b.state),
    ("refs", encode b.refs), ("constants", encode b.constants), ("functions", encode b.functions),
    ("derived", encode b.derived), ("memos", encode b.memos), ("hook_uses", encode b.hookUses),
    ("effects", encode b.effects)]⟩

instance : Decode FunctionBody := ⟨fun j =>
  { hookCalls := field j "hook_calls" [], state := field j "state" [], refs := field j "refs" []
    constants := field j "constants" [], functions := field j "functions" []
    derived := field j "derived" [], memos := field j "memos" []
    hookUses := field j "hook_uses" [], effects := field j "effects" [] }⟩

/-! ### Modules -/

mutual

/-- The JSON form of a route entry. -/
def encodeRouteEntry : RouteEntry → Json
  | .mk path index element redirect children comment => record "RouteEntry"
      [("path", encode path), ("index", .bool index), ("element", encode element),
        ("redirect", encode redirect), ("children", .arr (encodeRouteEntries children)),
        ("comment", encode comment)]

/-- Route entries as JSON values. -/
def encodeRouteEntries : List RouteEntry → List Json
  | [] => []
  | r :: rs => encodeRouteEntry r :: encodeRouteEntries rs

end

instance : Encode RouteEntry := ⟨encodeRouteEntry⟩

/-- Reads a route entry within a depth. -/
def decodeRouteEntryWithin : Nat → Json → RouteEntry
  | 0, _ => default
  | depth + 1, j =>
      let children : List RouteEntry :=
        match j.get? "children" with
        | some (.arr items) => items.map (decodeRouteEntryWithin depth)
        | _ => []
      .mk (field j "path" none) (field j "index" false) (field j "element" none)
        (field j "redirect" none) children (field j "comment" none)

instance : Decode RouteEntry := ⟨decodeRouteEntryWithin depthLimit⟩

/-- The reference of a shared module, in place of its text. -/
def sharedRecord (kind name : String) : Json :=
  record kind [("shared", .str name)]

instance : Encode Artifact := ⟨fun artifact =>
  match artifact with
  | .component a => record "ReactComponentArtifact"
      [("ref", encode a.ref), ("name", .str a.name), ("props", encode a.props),
        ("imports", encode a.imports), ("body", encode a.body), ("jsx", encode a.markup),
        ("module_constants", encode a.moduleConstants), ("hoc", .bool a.wrapper),
        ("stub_reason", encode a.stubReason), ("stub_source", encode a.stubSource),
        ("style_ref", encode a.styleRef), ("test", .bool a.test)]
  | .hook a =>
      if a.shared then sharedRecord "HookArtifact" a.name
      else record "HookArtifact"
        [("ref", encode a.ref), ("name", .str a.name), ("params", encode a.params),
          ("imports", encode a.imports), ("body", encode a.body), ("returns", encode a.returns),
          ("return_expression", encode a.returnExpression),
          ("options_type", encode a.optionsType), ("options", encode a.options),
          ("raw", encode a.raw), ("shared", .bool a.shared)]
  | .context a => record "ContextArtifact"
      [("ref", encode a.ref), ("name", .str a.name), ("provider", .str a.provider),
        ("hook", .str a.hook), ("imports", encode a.imports), ("providers", encode a.providers),
        ("comment", encode a.comment)]
  | .routes a => record "RouteArtifact"
      [("ref", encode a.ref), ("name", .str a.name), ("table", .str a.table),
        ("imports", encode a.imports), ("routes", encode a.routes)]
  | .util a =>
      if a.shared then sharedRecord "UtilArtifact" a.name
      else record "UtilArtifact"
        [("ref", encode a.ref), ("name", .str a.name), ("imports", encode a.imports),
          ("constants", encode a.constants), ("mutable", encode a.mutables),
          ("functions", encode a.functions), ("exported", encode a.exported),
          ("raw", encode a.raw), ("shared", .bool a.shared), ("typed_only", .bool a.typedOnly)]
  | .style a => record "StyleArtifact"
      [("ref", encode a.ref), ("name", .str a.name), ("styles", encode a.styles)]⟩

instance : Decode Artifact := ⟨fun j =>
  let ref : ArtifactRef := field j "ref" default
  let name : String := field j "name" ""
  let imports : List ImportSpec := field j "imports" []
  match kindOf j with
  | "ReactComponentArtifact" => .component
      { ref, name, imports, props := field j "props" [], body := field j "body" {}
        markup := field j "jsx" none, moduleConstants := field j "module_constants" []
        wrapper := field j "hoc" false, stubReason := field j "stub_reason" none
        stubSource := field j "stub_source" none, styleRef := field j "style_ref" none
        test := field j "test" true }
  | "HookArtifact" => .hook
      { ref, name, imports, params := field j "params" [], body := field j "body" {}
        returns := field j "returns" [], returnExpression := field j "return_expression" none
        optionsType := field j "options_type" none, options := field j "options" []
        raw := field j "raw" none, shared := field j "shared" false }
  | "ContextArtifact" => .context
      { ref, name, imports, provider := field j "provider" "", hook := field j "hook" ""
        providers := field j "providers" [], comment := field j "comment" none }
  | "RouteArtifact" => .routes
      { ref, name, imports, table := field j "table" "", routes := field j "routes" [] }
  | "UtilArtifact" => .util
      { ref, name, imports, constants := field j "constants" [], mutables := field j "mutable" []
        functions := field j "functions" [], exported := field j "exported" []
        raw := field j "raw" none, shared := field j "shared" false
        typedOnly := field j "typed_only" false }
  | _ => .style { ref, name, styles := field j "styles" [] }⟩

end ReactMigration.Interchange
