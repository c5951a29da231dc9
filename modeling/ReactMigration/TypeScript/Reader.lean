import ReactMigration.TypeScript.Node

/-!
Readers of TypeScript text: the current place is the end of the last token, and every token reader
first skips white space and comments.
-/

namespace ReactMigration.TypeScript

/-- The text being read, and whether markup elements may occur in expressions. -/
structure Env where
  chars : Array Char
  markup : Bool

/-- A reader that may fail; a failed alternative leaves the place where it was. -/
abbrev Reader := ReaderT Env (StateT Nat Option)

/-- The nodes a rule contributes to its parent. -/
abbrev Pieces := List Node

/-- The character at an offset; the null character after the end. -/
def Env.at (e : Env) (i : Nat) : Char :=
  e.chars.getD i '\x00'

/-- White space between tokens. -/
def isSpace (c : Char) : Bool :=
  Text.isBlank c || c.toNat == 0xFEFF || c.toNat == 0x2060 || c.toNat == 0x200B

/-- A character that ends a line. -/
def isNewline (c : Char) : Bool :=
  c == '\n' || c.toNat == 0x2028 || c.toNat == 0x2029

/-- A character of a name after the first. -/
def isNamePart (c : Char) : Bool :=
  !(c.toNat < 0x20 || isSpace c || ":;\x60\"'@#.,|^&<=>+-*/\\%?!~()[]\x7b\x7d".toList.contains c)

/-- A character a name may start with. -/
def isNameStart (c : Char) : Bool :=
  isNamePart c && !c.isDigit

/-- The offset after a line comment. -/
def lineCommentEnd (e : Env) : Nat → Nat → Nat
  | 0, i => i
  | fuel + 1, i =>
      if e.chars.size ≤ i || isNewline (e.at i) then i else lineCommentEnd e fuel (i + 1)

/-- The offset after a block comment, whose opening is already skipped. -/
def blockCommentEnd (e : Env) : Nat → Nat → Nat
  | 0, i => i
  | fuel + 1, i =>
      if e.chars.size ≤ i then e.chars.size
      else if e.at i == '*' && e.at (i + 1) == '/' then i + 2
      else blockCommentEnd e fuel (i + 1)

/-- The offset of the next token, white space and comments skipped. -/
def tokenStart (e : Env) : Nat → Nat → Nat
  | 0, i => i
  | fuel + 1, i =>
      if e.chars.size ≤ i then e.chars.size
      else if isSpace (e.at i) then tokenStart e fuel (i + 1)
      else if e.at i == '/' && e.at (i + 1) == '/' then
        tokenStart e fuel (lineCommentEnd e e.chars.size (i + 2))
      else if e.at i == '/' && e.at (i + 1) == '*' then
        tokenStart e fuel (blockCommentEnd e e.chars.size (i + 2))
      else i

/-- The comments between two offsets that hold only white space and comments. -/
def commentsBetween (e : Env) (stop : Nat) : Nat → Nat → Pieces
  | 0, _ => []
  | fuel + 1, i =>
      if stop ≤ i then []
      else if e.at i == '/' && e.at (i + 1) == '/' then
        let j := lineCommentEnd e e.chars.size (i + 2)
        .mk .comment .none i j [] :: commentsBetween e stop fuel j
      else if e.at i == '/' && e.at (i + 1) == '*' then
        let j := blockCommentEnd e e.chars.size (i + 2)
        .mk .comment .none i j [] :: commentsBetween e stop fuel j
      else commentsBetween e stop fuel (i + 1)

/-- Whether the stretch holds a line end. -/
def holdsNewline (e : Env) (start stop : Nat) : Bool :=
  (List.range (stop - start)).any fun k => isNewline (e.at (start + k))

namespace Reader

/-- Fails. -/
def fail {α : Type} : Reader α :=
  fun _ _ => none

/-- Goes on only if the condition holds. -/
def check (b : Bool) : Reader Unit :=
  if b then pure () else fail

/-- The rule, or nothing. -/
def opt (p : Reader Pieces) : Reader Pieces :=
  p <|> pure []

/-- Looks ahead: whether the rule would succeed here. -/
def follows {α : Type} (p : Reader α) : Reader Bool :=
  fun e i => some ((p e i).isSome, i)

/-- Repeats a rule while it succeeds and moves on. -/
def manyWithin (p : Reader Pieces) (e : Env) : Nat → Pieces → Nat → Pieces × Nat
  | 0, done, i => (done, i)
  | fuel + 1, done, i =>
      match p e i with
      | some (ns, j) => if i < j then manyWithin p e fuel (done ++ ns) j else (done, i)
      | none => (done, i)

/-- Any number of repetitions. -/
def many (p : Reader Pieces) : Reader Pieces :=
  fun e i => some (manyWithin p e (e.chars.size + 1 - i) [] i)

/-- The offset of the next token. -/
def here : Reader Nat :=
  fun e i => some (tokenStart e (e.chars.size + 1) i, i)

/-- The character at the start of the next token, and the one after it. -/
def peek : Reader (Char × Char) := do
  let e ← read
  let i ← here
  return (e.at i, e.at (i + 1))

/-- Whether a line ends before the next token. -/
def newlineAhead : Reader Bool := do
  let e ← read
  let i ← get
  return holdsNewline e i (← here)

/-- Whether nothing but white space and comments is left. -/
def atEnd : Reader Bool := do
  return (← read).chars.size ≤ (← here)

/-- The offset after a name that starts at `i`. -/
def nameEnd (e : Env) : Nat → Nat → Nat
  | 0, i => i
  | fuel + 1, i =>
      if i < e.chars.size && isNamePart (e.at i) then nameEnd e fuel (i + 1)
      else if e.at i == '\\' && e.at (i + 1) == 'u' then nameEnd e fuel (i + 6)
      else i

/-- The text between two offsets. -/
def textBetween (e : Env) (i j : Nat) : String :=
  String.ofList ((e.chars.extract i j).toList)

/-- The word at the next token, empty if there is none. -/
def peekWord : Reader String := do
  let e ← read
  let i ← here
  if isNameStart (e.at i) || e.at i == '\\' then
    return textBetween e i (nameEnd e (e.chars.size + 1) i)
  else return ""

/-- A leaf from the next token's start to `stop`. -/
def leaf (kind : Kind) (stop : Nat) : Reader Pieces := do
  let i ← here
  set stop
  return [.mk kind .none i stop []]

/-- Whether the text has the given characters at an offset. -/
def hasChars (e : Env) : List Char → Nat → Bool
  | [], _ => true
  | c :: cs, i => e.at i == c && hasChars e cs (i + 1)

/-- Exactly these characters, whatever follows them. -/
def mark (text : String) : Reader Pieces := do
  let e ← read
  let i ← here
  let cs := text.toList
  check (hasChars e cs i && i + cs.length ≤ e.chars.size)
  leaf (.token text) (i + cs.length)

/-- Operators, the longest first. -/
def operators : List String :=
  [">>>=", "...", "===", "!==", "**=", "<<=", ">>=", ">>>", "&&=", "||=", "??=", "=>", "==", "!=",
   "<=", ">=", "&&", "||", "??", "?.", "++", "--", "+=", "-=", "*=", "/=", "%=", "&=", "|=", "^=",
   "<<", ">>", "**", "=", "<", ">", "+", "-", "*", "/", "%", "&", "|", "^", "!", "~", "?", ":"]

/-- The longest operator at the next token. -/
def peekOperator : Reader String := do
  let e ← read
  let i ← here
  match operators.find? fun o => hasChars e o.toList i with
  | some "?." => return if (e.at (i + 2)).isDigit then "?" else "?."
  | some o => return o
  | none => return ""

/-- Exactly this operator. -/
def op (text : String) : Reader Pieces := do
  check ((← peekOperator) == text)
  mark text

/-- Exactly this word. -/
def word (text : String) : Reader Pieces := do
  check ((← peekWord) == text)
  mark text

/-- Words that are never names of variables. -/
def reserved : List String :=
  ["break", "case", "catch", "class", "const", "continue", "debugger", "default", "delete", "do",
   "else", "enum", "export", "extends", "false", "finally", "for", "function", "if", "import", "in",
   "instanceof", "new", "null", "return", "super", "switch", "this", "throw", "true", "try",
   "typeof", "var", "void", "while", "with"]

/-- Any word, as a node of the given kind. -/
def anyWord (kind : Kind) : Reader Pieces := do
  let w ← peekWord
  check (w != "")
  leaf kind ((← here) + w.length)

/-- The name of a variable. -/
def name (kind : Kind) : Reader Pieces := do
  check (!reserved.contains (← peekWord))
  anyWord kind

/-- Groups pieces into one node. -/
def wrap (kind : Kind) (pieces : Pieces) : Reader Pieces := do
  match pieces.head?, pieces.getLast? with
  | some a, some b => return [.mk kind .none a.start b.stop pieces]
  | _, _ => return [.mk kind .none (← get) (← get) []]

/-- Puts the pieces in a role. -/
def inRole (role : Role) (p : Reader Pieces) : Reader Pieces := do
  return (← p).map (·.withRole role)

/-- Groups what a rule reads into one node. -/
def phrase (name : String) (p : Reader Pieces) : Reader Pieces := do
  wrap (.phrase name) (← p)

/-- Rules in a row. -/
def seq : List (Reader Pieces) → Reader Pieces
  | [] => pure []
  | p :: ps => do
      let a ← p
      let b ← seq ps
      return a ++ b

/-- The first rule that succeeds. -/
def firstOf : List (Reader Pieces) → Reader Pieces
  | [] => fail
  | p :: ps => p <|> firstOf ps

/-- At least one item, with separators between them. -/
def sepBy1 (item separator : Reader Pieces) : Reader Pieces := do
  let a ← item
  let rest ← many (seq [separator, item])
  return a ++ rest

/-- Items between separators, with an optional last separator, possibly none. -/
def listOf (item separator : Reader Pieces) : Reader Pieces :=
  seq [opt (sepBy1 item separator), opt separator]

/-- The end of a statement: a semicolon, or a place where one may be left out. -/
def semicolon : Reader Pieces := do
  if (← peek).1 == ';' then mark ";"
  else
    let ends ← atEnd
    let newline ← newlineAhead
    check (ends || newline || (← peek).1 == '\x7d')
    return []

end Reader

/-- A rule that other rules refer to. -/
inductive Goal where
  | type
  | expression
  /-- An expression without commas; `noIn` holds in the head of a loop, `noArrowType` where an arrow
  function must not have a result type. -/
  | assignment (noIn noArrowType : Bool)
  | unary (noArrowType : Bool)
  /-- The operand of `new`. -/
  | constructor
  | pattern
  | parameters
  | block
  | statement
  | decorator
  | classTail
  | member (inClass : Bool)
  | element
  deriving Repr, DecidableEq

/-- How rules call one another. -/
abbrev Rules := Goal → Reader Pieces

end ReactMigration.TypeScript
