import ReactMigration.Json.Basic
import ReactMigration.Report.Finding
import ReactMigration.Table

/-!
The JSON form of the library's records: an object whose member `_` names the kind of record.
`Encode` says how a value is written and `Decode` how it is read; a missing member reads as the
default of its field.
-/

namespace ReactMigration.Interchange

/-- Values with a JSON form. -/
class Encode (α : Type) where
  encode : α → Json

/-- Values that can be read back from their JSON form. -/
class Decode (α : Type) where
  decode : Json → α

export Encode (encode)
export Decode (decode)

instance : Encode Json := ⟨id⟩
instance : Encode String := ⟨.str⟩
instance : Encode Bool := ⟨.bool⟩
instance : Encode Nat := ⟨fun n => .int n⟩
instance : Encode Int := ⟨.int⟩
instance {α : Type} [Encode α] : Encode (List α) := ⟨fun xs => .arr (xs.map encode)⟩
instance {α : Type} [Encode α] : Encode (Option α) := ⟨fun
  | some x => encode x
  | none => .null⟩

/-- An ordered table: a list of pairs. -/
def encodeTable {α : Type} [Encode α] (t : Table α) : Json :=
  .obj [("dict", .arr (t.map fun (k, v) => .arr [.str k, encode v]))]

/-- A record of the given kind. -/
def record (kind : String) (fields : List (String × Json)) : Json :=
  .obj (("_", .str kind) :: fields)

/-- The kind a record names. -/
def kindOf (j : Json) : String :=
  match j.get? "_" with
  | some (.str s) => s
  | _ => ""

instance : Decode Json := ⟨id⟩

instance : Decode String := ⟨fun
  | .str s => s
  | _ => ""⟩

instance : Decode Bool := ⟨fun
  | .bool b => b
  | _ => false⟩

instance : Decode Int := ⟨fun
  | .int n => n
  | _ => 0⟩

instance : Decode Nat := ⟨fun
  | .int n => n.toNat
  | _ => 0⟩

instance {α : Type} [Decode α] : Decode (List α) := ⟨fun
  | .arr xs => xs.map decode
  | _ => []⟩

instance {α : Type} [Decode α] : Decode (Option α) := ⟨fun
  | .null => none
  | j => some (decode j)⟩

/-- Reads a member, or takes the default when it is missing. -/
def field {α : Type} [Decode α] (j : Json) (key : String) (default : α) : α :=
  match j.get? key with
  | some v => decode v
  | none => default

/-- Reads a list of pairs as a table, a repeated key taking the later value. -/
def decodePairs {α : Type} [Decode α] : Json → Table α
  | .arr items => items.foldl (fun t item =>
      match item with
      | .arr [.str k, v] => t.set k (decode v)
      | _ => t) []
  | _ => []

/-- Reads an ordered table, written as pairs or as a plain object. -/
def decodeTable {α : Type} [Decode α] (j : Json) : Table α :=
  match j.get? "dict" with
  | some pairs => decodePairs pairs
  | none =>
      match j with
      | .obj members => members.map fun (k, v) => (k, decode v)
      | _ => []

/-- Reads a table member. -/
def tableField {α : Type} [Decode α] (j : Json) (key : String) : Table α :=
  match j.get? key with
  | some v => decodeTable v
  | none => []

/-! ### Failures -/

/-- The kind name of a finding. -/
def findingName : FindingKind → String
  | .declaration => "MalformedDeclarationError"
  | .unclassified => "UnclassifiedUnitError"
  | .template => "TemplateError"
  | .markup _ => "MalformedTemplateError"
  | .duplicateStructural _ _ => "DuplicateStructuralDirectiveError"
  | .other => "UnitError"

instance : Encode Finding where
  encode f :=
    let extra : List (String × Json) :=
      match f.kind with
      | .markup attr => [("attribute", encode attr)]
      | .duplicateStructural element directives =>
          [("element", .str element), ("directives", encode directives)]
      | _ => []
    .obj ([("error", .str (findingName f.kind)), ("message", .str f.message), ("unit", .str f.unit),
      ("line", encode f.line), ("column", encode f.column)] ++ extra)

/-- The class of a fault. -/
def faultName : Fault → String
  | .historyExhausted => "IndexError"
  | .absentValue _ => "AttributeError"
  | .notSeveral _ => "TypeError"
  | .lacksProperty _ _ => "AttributeError"
  | .notPath _ => "TypeError"
  | .endlessTemplate => "RecursionError"
  | .unreadReplacement (.malformed _) => "error"
  | .unreadReplacement (.unknownGroup _) => "IndexError"

instance : Encode Fault := ⟨fun f => .obj [("error", .str (faultName f))]⟩

instance : Encode Failure := ⟨fun
  | .finding f => encode f
  | .fault f => encode f⟩

instance {ε α : Type} [Encode ε] [Encode α] : Encode (Except ε α) := ⟨fun
  | .ok x => encode x
  | .error e => encode e⟩

end ReactMigration.Interchange
