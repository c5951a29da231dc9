import ReactMigration.Interchange.Basic
import ReactMigration.Template.Node

/-!
The JSON form of template trees.
-/

namespace ReactMigration.Interchange

open ReactMigration.Template

instance : Encode Position := ⟨fun p => .arr [encode p.line, encode p.column, encode p.offset]⟩

instance : Decode Position := ⟨fun
  | .arr [l, c, o] => ⟨decode l, decode c, decode o⟩
  | .arr [l, c] => ⟨decode l, decode c, 0⟩
  | _ => {}⟩

/-- A bound value as JSON. -/
def encodeBound : BoundValue → Json
  | .text s => .str s
  | .pipe name input args position =>
      record "PipeCall" [("name", .str name), ("input", encodeBound input), ("args", encode args),
        ("position", encode position)]

instance : Encode BoundValue := ⟨encodeBound⟩

/-- Reads a bound value of bounded depth. -/
def decodeBound : Nat → Json → BoundValue
  | _, .str s => .text s
  | 0, _ => .text ""
  | fuel + 1, j =>
      .pipe (field j "name" "") (decodeBound fuel ((j.get? "input").getD .null)) (field j "args" [])
        (field j "position" none)

/-- How deep nested records are read. -/
def depthLimit : Nat := 1000

instance : Decode BoundValue := ⟨decodeBound depthLimit⟩

instance : Encode Clauses := ⟨fun m =>
  record "Microsyntax" [("expression", .str m.expression), ("item", encode m.item),
    ("locals", encodeTable m.locals), ("track_by", encode m.trackBy),
    ("else_ref", encode m.elseRef), ("then_ref", encode m.thenRef), ("alias", encode m.asName),
    ("extra", encodeTable m.extra)]⟩

instance : Decode Clauses := ⟨fun j =>
  { expression := field j "expression" ""
    item := field j "item" none
    locals := tableField j "locals"
    trackBy := field j "track_by" none
    elseRef := field j "else_ref" none
    thenRef := field j "then_ref" none
    asName := field j "alias" none
    extra := tableField j "extra" }⟩

instance : Encode Attribute := ⟨fun
  | .static name value p =>
      record "Attribute" [("name", .str name), ("value", encode value), ("position", encode p)]
  | .property name e value p twoWay =>
      record "PropertyBinding" [("name", .str name), ("expression", .str e), ("value", encode value),
        ("position", encode p), ("two_way", .bool twoWay)]
  | .event name handler p twoWay =>
      record "EventBinding" [("name", .str name), ("handler", .str handler), ("position", encode p),
        ("two_way", .bool twoWay)]
  | .twoWay name e p =>
      record "TwoWayBinding" [("name", .str name), ("expression", .str e), ("position", encode p)]
  | .reference name value p =>
      record "TemplateRefVar" [("name", .str name), ("value", encode value), ("position", encode p)]
  | .directive name e value p bound resolved =>
      record "AttributeDirective" [("name", .str name), ("expression", encode e),
        ("value", encode value), ("position", encode p), ("bound", .bool bound),
        ("directive", encode resolved)]⟩

instance : Decode Attribute := ⟨fun j =>
  let name := field j "name" ""
  let p : Position := field j "position" {}
  match kindOf j with
  | "PropertyBinding" =>
      .property name (field j "expression" "") (field j "value" (.text "")) p
        (field j "two_way" false)
  | "EventBinding" => .event name (field j "handler" "") p (field j "two_way" false)
  | "TwoWayBinding" => .twoWay name (field j "expression" "") p
  | "TemplateRefVar" => .reference name (field j "value" none) p
  | "AttributeDirective" =>
      .directive name (field j "expression" none) (field j "value" none) p (field j "bound" false)
        (field j "directive" none)
  | _ => .static name (field j "value" none) p⟩

mutual

/-- A template node as JSON. -/
def encodeNode : Node → Json
  | .element tag attributes children p selfClosing component =>
      record "ElementNode" [("tag", .str tag), ("attributes", encode attributes),
        ("children", .arr (encodeNodes children)), ("position", encode p),
        ("self_closing", .bool selfClosing), ("component", encode component)]
  | .text text p => record "TextNode" [("text", .str text), ("position", encode p)]
  | .interpolation e value p =>
      record "Interpolation" [("expression", .str e), ("value", encode value),
        ("position", encode p)]
  | .structural name e clauses child p directive =>
      record "StructuralDirective" [("name", .str name), ("expression", .str e),
        ("syntax", encode clauses), ("child", encodeNode child), ("position", encode p),
        ("directive", encode directive)]
  | .container kind attributes children p =>
      record "Container" [("kind", .str kind), ("attributes", encode attributes),
        ("children", .arr (encodeNodes children)), ("position", encode p)]

/-- Template nodes as JSON values. -/
def encodeNodes : List Node → List Json
  | [] => []
  | n :: ns => encodeNode n :: encodeNodes ns

end

instance : Encode Node := ⟨encodeNode⟩

/-- Reads a template node of bounded depth. -/
def decodeNode : Nat → Json → Node
  | 0, _ => .text "" {}
  | fuel + 1, j =>
      let p : Position := field j "position" {}
      let children : List Node :=
        match j.get? "children" with
        | some (.arr items) => items.map (decodeNode fuel)
        | _ => []
      match kindOf j with
      | "ElementNode" =>
          .element (field j "tag" "") (field j "attributes" []) children p
            (field j "self_closing" false) (field j "component" none)
      | "Interpolation" => .interpolation (field j "expression" "") (field j "value" (.text "")) p
      | "StructuralDirective" =>
          .structural (field j "name" "") (field j "expression" "")
            (field j "syntax" { expression := "" }) (decodeNode fuel ((j.get? "child").getD .null)) p
            (field j "directive" none)
      | "Container" => .container (field j "kind" "") (field j "attributes" []) children p
      | _ => .text (field j "text" "") p

instance : Decode Node := ⟨decodeNode depthLimit⟩

end ReactMigration.Interchange
