import ReactMigration.Fault
import ReactMigration.Text.Basic

/-!
Tokens of script expressions: kinds, character classes and keyword tables.
-/

namespace ReactMigration.Script

open ReactMigration.Text

/-- The kind of a token. -/
inductive TokenKind where
  | identifier
  | keyword
  | punctuator
  | numeric
  | string
  | template
  | regex
  | boolean
  | null
  deriving Repr, DecidableEq, Inhabited

/-- The name of a token kind in listings. -/
def TokenKind.label : TokenKind → String
  | .identifier => "Identifier"
  | .keyword => "Keyword"
  | .punctuator => "Punctuator"
  | .numeric => "Numeric"
  | .string => "String"
  | .template => "Template"
  | .regex => "RegularExpression"
  | .boolean => "Boolean"
  | .null => "Null"

/-- A token with its text and the places where it starts and ends. -/
structure Token where
  kind : TokenKind
  text : String
  start : Nat
  stop : Nat
  deriving Repr, Inhabited

/-- Whether the token is the given punctuator. -/
def Token.isPunctuator (t : Token) (text : String) : Bool :=
  t.kind == .punctuator && t.text == text

/-- The words that are never identifiers. -/
def keywords : List String :=
  ["if", "in", "do", "var", "for", "new", "try", "let", "this", "else", "case", "void", "with",
   "enum", "while", "break", "catch", "throw", "const", "yield", "class", "super", "return",
   "typeof", "delete", "switch", "export", "import", "default", "finally", "extends", "function",
   "continue", "debugger", "instanceof"]

/-- The kind of a word. -/
def wordKind (word : String) : TokenKind :=
  if keywords.contains word then .keyword
  else if word == "null" then .null
  else if word == "true" || word == "false" then .boolean
  else .identifier

/-- A character an identifier may start with; a backslash starts an escaped one. -/
def isIdentifierStart (c : Char) : Bool :=
  isLetter c || isLetterNumber c || c == '$' || c == '_' || c == '\\'

/-- A character an identifier may go on with. -/
def isIdentifierPart (c : Char) : Bool :=
  isIdentifierStart c || isDecimal c || isJoiner c || c.toNat == 0x200C || c.toNat == 0x200D

/-- White space between tokens. -/
def isGap (c : Char) : Bool :=
  let n := c.toNat
  n == 9 || n == 11 || n == 12 || n == 32 || n == 0xA0 || n == 0x1680 || n == 0x180E ||
    (0x2000 ≤ n && n ≤ 0x200A) || n == 0x202F || n == 0x205F || n == 0x3000 || n == 0xFEFF

/-- A character that ends a line of script. -/
def isLineEnd (c : Char) : Bool :=
  c == '\n' || c == '\r' || c.toNat == 0x2028 || c.toNat == 0x2029

/-- Punctuators of several characters, the longest first. -/
def longPunctuators : List String :=
  [">>>=", "===", "!==", ">>>", "<<=", ">>=", "**=", "&&", "||", "==", "!=", "+=", "-=", "*=", "/=",
   "++", "--", "<<", ">>", "&=", "|=", "^=", "%=", "<=", ">=", "=>", "**"]

/-- Punctuators that always stand alone. -/
def lonePunctuators : List Char :=
  "()\x7b\x7d;,[]:?~".toList

/-- Operators of one character. -/
def operatorChars : List Char :=
  "<>=!+-*%&|^/".toList

/-- Words and punctuators after which a function is an expression. -/
def beforeFunctionExpression : List String :=
  ["(", "\x7b", "[", "in", "typeof", "instanceof", "new", "return", "case", "delete", "throw",
   "void", "=", "+=", "-=", "*=", "**=", "/=", "%=", "<<=", ">>=", ">>>=", "&=", "|=", "^=", ",",
   "+", "-", "*", "**", "/", "%", "++", "--", "<<", ">>", ">>>", "&", "|", "^", "!", "~", "&&",
   "||", "?", ":", "===", "==", ">=", "<=", "<", ">", "!=", "!=="]

end ReactMigration.Script
