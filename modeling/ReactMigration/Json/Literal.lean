import ReactMigration.Json.Basic

/-!
JSON values as messages show them: words for the constants, quoted texts, brackets around lists and
braces around members.
-/

namespace ReactMigration.Json

open ReactMigration.Text

mutual

/-- The value as it reads inside a message. -/
def literal : Json → String
  | .null => "None"
  | .bool b => if b then "True" else "False"
  | .int n => toString n
  | .float x => numberFormat.text x
  | .str s => quoted s
  | .arr items => "[" ++ ", ".intercalate (itemLiterals items) ++ "]"
  | .obj members => "\x7b" ++ ", ".intercalate (memberLiterals members) ++ "\x7d"

/-- The texts of the items of an array. -/
def itemLiterals : List Json → List String
  | [] => []
  | v :: vs => literal v :: itemLiterals vs

/-- The texts of the members of an object. -/
def memberLiterals : List (String × Json) → List String
  | [] => []
  | (k, v) :: rest => (quoted k ++ ": " ++ literal v) :: memberLiterals rest

end

/-- The value as text: a string is itself. -/
def text : Json → String
  | .str s => s
  | v => v.literal

/-- Whether the value counts as set: not nothing, false, zero or empty. -/
def isSet : Json → Bool
  | .null => false
  | .bool b => b
  | .int n => n != 0
  | .float x => x != 0.0
  | .str s => s != ""
  | .arr items => !items.isEmpty
  | .obj members => !members.isEmpty

/-- Whether a value is null. -/
def isNull : Json → Bool
  | .null => true
  | _ => false

/-- Whether a value is true or false. -/
def isBool : Json → Bool
  | .bool _ => true
  | _ => false

end ReactMigration.Json
