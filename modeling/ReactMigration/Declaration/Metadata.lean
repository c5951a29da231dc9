import ReactMigration.Fault
import ReactMigration.Json.Parser
import ReactMigration.Table
import ReactMigration.Text.Quoted
import ReactMigration.TypeScript.Outline

/-!
Values of decorator metadata: literals are evaluated, calls are kept with their evaluated arguments,
and everything else is kept as text.
-/

namespace ReactMigration

/-- A metadata value. -/
inductive Metadata where
  | none
  | bool (value : Bool)
  | int (value : Int)
  | float (value : Float)
  | str (value : String)
  /-- An expression that is not a literal. -/
  | expr (text : String)
  /-- A call: what is called, the arguments and the whole text. -/
  | call (callee : String) (args : List Metadata) (text : String)
  | list (items : List Metadata)
  | dict (members : List (String × Metadata))
  deriving Inhabited

namespace Metadata

open ReactMigration.Text

/-- Braces around a listing. -/
def braced (s : String) : String :=
  "\x7b" ++ s ++ "\x7d"

mutual

/-- The value as it reads inside a message. -/
def literal : Metadata → String
  | .none => "None"
  | .bool b => if b then "True" else "False"
  | .int n => toString n
  | .float x => Json.numberFormat.text x
  | .str s => quoted s
  | .expr t => "Expr(text=" ++ quoted t ++ ")"
  | .call callee args t =>
      let inner :=
        match literals args with
        | [a] => a ++ ","
        | as => ", ".intercalate as
      "Call(callee=" ++ quoted callee ++ ", args=(" ++ inner ++ "), text=" ++ quoted t ++ ")"
  | .list items => "[" ++ ", ".intercalate (literals items) ++ "]"
  | .dict members => braced (", ".intercalate (memberLiterals members))

/-- The texts of the items of a list. -/
def literals : List Metadata → List String
  | [] => []
  | v :: vs => literal v :: literals vs

/-- The texts of the members of an object. -/
def memberLiterals : List (String × Metadata) → List String
  | [] => []
  | (k, v) :: rest => (quoted k ++ ": " ++ literal v) :: memberLiterals rest

end

/-- The value as text: a string is itself. -/
def text : Metadata → String
  | .str s => s
  | v => v.literal

/-- The member of a dictionary, nothing for other values. -/
def get (v : Metadata) (key : String) : Metadata :=
  match v with
  | .dict members => (members.find? (·.1 == key)).elim .none (·.2)
  | _ => .none

/-- Whether the value counts as absent: nothing, false, zero or empty. -/
def isEmpty : Metadata → Bool
  | .none => true
  | .bool b => !b
  | .int n => n == 0
  | .float x => x == 0.0
  | .str s => s == ""
  | .list items => items.isEmpty
  | .dict members => members.isEmpty
  | _ => false

/-- The text of a string value. -/
def str? : Metadata → Option String
  | .str s => some s
  | _ => Option.none

/-- The several values that a value holds: the items of a list, the characters of a text, the keys
of a dictionary, and none of an absent value. -/
def several (v : Metadata) : Except Fault (List Metadata) :=
  if v.isEmpty then .ok []
  else
    match v with
    | .list items => .ok items
    | .str s => .ok (s.toList.map fun c => .str (String.ofList [c]))
    | .dict members => .ok (members.map fun (k, _) => .str k)
    | .expr _ => .error (.notSeveral "Expr")
    | .call .. => .error (.notSeveral "Call")
    | .int _ => .error (.notSeveral "int")
    | .float _ => .error (.notSeveral "float")
    | .bool _ => .error (.notSeveral "bool")
    | .none => .ok []

/-- The name a metadata entry refers to: of an expression its text, of a call what is called, of a
provider what it provides. -/
def name : Metadata → String
  | .expr t => t
  | .call callee _ _ => callee
  | .dict members => providedName members members
  | v => v.text
where
  /-- The name of the value provided, or the text of the whole dictionary. -/
  providedName (whole : List (String × Metadata)) : List (String × Metadata) → String
    | [] => (Metadata.dict whole).literal
    | (k, v) :: rest => if k == "provide" then v.name else providedName whole rest

/-! ### Reading literals -/

/-- The escapes of a string literal and what they stand for, in the order they are undone. -/
def escapes : List (String × String) :=
  [("\\n", "\n"), ("\\t", "\t"), ("\\'", "'"), ("\\\"", "\""), ("\\\x60", "\x60"), ("\\\\", "\\")]

/-- Undoes the escapes of a string literal. -/
def unescape (s : String) : String :=
  escapes.foldl (fun t (escaped, plain) => replaceAll escaped plain t) s

/-- A text without its first and last character. -/
def inner (s : String) : String :=
  let cs := s.toList
  String.ofList ((cs.drop 1).take (cs.length - 2))

/-- Digits in groups that single underscores separate; none is empty. -/
def isDigits (cs : List Char) : Bool :=
  (splitChar '_' cs).all fun group => !group.isEmpty && group.all Char.isDigit

/-- The value of grouped digits. -/
def digitsOf (cs : List Char) : Nat :=
  Json.digitsValue (cs.filter Char.isDigit)

/-- A decimal number with a point or an exponent. -/
def decimal? (cs : List Char) : Option Float :=
  let isExponent := fun c : Char => c == 'e' || c == 'E'
  let mantissa := cs.takeWhile (!isExponent ·)
  let tail := cs.dropWhile (!isExponent ·)
  let whole := mantissa.takeWhile (· != '.')
  let fraction := (mantissa.dropWhile (· != '.')).drop 1
  let digitsOk := (whole.isEmpty || isDigits whole) && (fraction.isEmpty || isDigits fraction) &&
    !(whole.isEmpty && fraction.isEmpty)
  let exponent : Option Int :=
    match tail with
    | [] => some 0
    | _ :: rest =>
        let (negative, digits) :=
          match rest with
          | '-' :: more => (true, more)
          | '+' :: more => (false, more)
          | _ => (false, rest)
        if isDigits digits then
          let n : Int := digitsOf digits
          some (if negative then -n else n)
        else Option.none
  match digitsOk, exponent with
  | true, some e =>
      let count := (fraction.filter Char.isDigit).length
      some (Decimal.toFloat (digitsOf (whole ++ fraction)) (e - count))
  | _, _ => Option.none

/-- The value of a number literal; one in another radix or notation is kept as text. -/
def ofNumber (s : String) : Metadata :=
  let cs := s.toList
  if isDigits cs then .int (digitsOf cs)
  else
    match decimal? cs with
    | some x => .float x
    | Option.none => .expr s

open ReactMigration.TypeScript in
/-- The text of an object's key. -/
def keyText (s : Source) (key : Option Node) : String :=
  match key with
  | Option.none => ""
  | some n => if n.kind == .string then unescape (inner (s.text n)) else s.text n

open ReactMigration.TypeScript in
/-- Evaluates a literal, nested at most `fuel` deep. -/
def ofNodeWithin (s : Source) : Nat → Node → Metadata
  | 0, n => .expr (s.text n)
  | fuel + 1, n =>
      let value := ofNodeWithin s fuel
      match n.kind with
      | .object =>
          .dict (n.namedChildren.foldl (fun (members : Table Metadata) c =>
            if c.kind == .pair then
              let v := (c.inRole? .value).elim .none value
              members.set (keyText s (c.inRole? .key)) v
            else if c.kind == .shorthandProperty then members.set (s.text c) (.expr (s.text c))
            else members) [])
      | .array => .list ((n.namedChildren.filter (·.kind != .comment)).map value)
      | .string => .str (unescape (inner (s.text n)))
      | .templateString => .str (unescape (inner (s.text n)))
      | .number => ofNumber (s.text n)
      | .true => .bool true
      | .false => .bool false
      | .null => .none
      | .parenthesized =>
          match n.namedChildren with
          | c :: _ => value c
          | [] => .expr (s.text n)
      | .callExpression =>
          let args := ((n.inRole? .arguments).elim [] (·.namedChildren)).filter (·.kind != .comment)
          .call (s.textOf (n.inRole? .function)) (args.map value) (s.text n)
      | _ => .expr (s.text n)

open ReactMigration.TypeScript in
/-- Evaluates a literal. -/
def ofNode (s : Source) (n : Node) : Metadata :=
  ofNodeWithin s (n.stop - n.start + 1) n

end Metadata

end ReactMigration
