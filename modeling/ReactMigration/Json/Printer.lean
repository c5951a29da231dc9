import ReactMigration.Json.Basic

/-!
Writing JSON text in ASCII: every other character becomes a `\u` escape, one per UTF-16 unit.
-/

namespace ReactMigration.Json

/-- The escape of one UTF-16 unit. -/
def unitEscape (n : Nat) : List Char :=
  '\\' :: 'u' :: Text.hexDigits 4 n

/-- One character inside a JSON string. -/
def escapeChar (c : Char) : List Char :=
  let n := c.toNat
  if c == '"' || c == '\\' then ['\\', c]
  else if c == '\n' then ['\\', 'n']
  else if c == '\r' then ['\\', 'r']
  else if c == '\t' then ['\\', 't']
  else if n == 8 then ['\\', 'b']
  else if n == 12 then ['\\', 'f']
  else if 32 ≤ n && n < 127 then [c]
  else if n < 0x10000 then unitEscape n
  else
    let m := n - 0x10000
    unitEscape (0xD800 + m / 0x400) ++ unitEscape (0xDC00 + m % 0x400)

/-- A JSON string. -/
def quote (s : String) : String :=
  String.ofList ('"' :: s.toList.flatMap escapeChar ++ ['"'])

/-- The text of a number that is not finite, as JSON readers commonly accept it. -/
def floatText (x : Float) : String :=
  match numberFormat.text x with
  | "inf" => "Infinity"
  | "-inf" => "-Infinity"
  | "nan" => "NaN"
  | s => s

mutual

/-- The value on one line, with no blanks. -/
def compact : Json → String
  | .null => "null"
  | .bool b => if b then "true" else "false"
  | .int n => toString n
  | .float x => floatText x
  | .str s => quote s
  | .arr items => "[" ++ ",".intercalate (compactItems items) ++ "]"
  | .obj members => "\x7b" ++ ",".intercalate (compactMembers members) ++ "\x7d"

/-- The texts of items on one line. -/
def compactItems : List Json → List String
  | [] => []
  | v :: vs => compact v :: compactItems vs

/-- The texts of members on one line. -/
def compactMembers : List (String × Json) → List String
  | [] => []
  | (k, v) :: rest => (quote k ++ ":" ++ compact v) :: compactMembers rest

end

/-- A bracketed group: empty on one line, otherwise one entry a line, two blanks deeper. -/
def group (opening closing : String) (depth : Nat) (entries : List String) : String :=
  if entries.isEmpty then opening ++ closing
  else
    let margin := "\n" ++ Text.spaces (2 * depth)
    opening ++ margin ++ "  " ++ (("," ++ margin ++ "  ").intercalate entries) ++ margin ++ closing

mutual

/-- The value over several lines, nested values two blanks deeper. -/
def indented (depth : Nat) : Json → String
  | .arr items => group "[" "]" depth (indentedItems depth items)
  | .obj members => group "\x7b" "\x7d" depth (indentedMembers depth members)
  | .null => "null"
  | .bool b => if b then "true" else "false"
  | .int n => toString n
  | .float x => floatText x
  | .str s => quote s

/-- The texts of items, one a line. -/
def indentedItems (depth : Nat) : List Json → List String
  | [] => []
  | v :: vs => indented (depth + 1) v :: indentedItems depth vs

/-- The texts of members, one a line. -/
def indentedMembers (depth : Nat) : List (String × Json) → List String
  | [] => []
  | (k, v) :: rest => (quote k ++ ": " ++ indented (depth + 1) v) :: indentedMembers depth rest

end

end ReactMigration.Json
