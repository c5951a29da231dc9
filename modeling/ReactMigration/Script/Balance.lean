import ReactMigration.Text.Basic

/-!
Brackets and quotes in script text.

A quoted stretch runs from a quote to the next equal quote, a backslash hiding the character after
it.  Brackets count only outside quotes.  All scanners here walk the text once.
-/

namespace ReactMigration.Script

open ReactMigration.Text

/-- The bracket that closes an opening one. -/
def closer? : Char → Option Char
  | '(' => some ')'
  | '[' => some ']'
  | '\x7b' => some '\x7d'
  | _ => none

/-- An opening bracket. -/
def isOpener (c : Char) : Bool :=
  (closer? c).isSome

/-- A closing bracket. -/
def isCloser (c : Char) : Bool :=
  c == ')' || c == ']' || c == '\x7d'

/-- A character that delimits a string. -/
def isQuote (c : Char) : Bool :=
  c == '\'' || c == '"' || c == '\x60'

/-- What is wrong with the brackets and quotes of a text. -/
inductive Imbalance where
  | unexpected (closer : Char)
  | unterminated (quote : Char)
  | missing (closer : Char)
  deriving Repr, DecidableEq

/-- A short description of the imbalance. -/
def Imbalance.message : Imbalance → String
  | .unexpected c => s!"unexpected '{c}'"
  | .unterminated q => s!"unterminated string literal {q}"
  | .missing c => s!"missing '{c}'"

/-- The first imbalance, given the open quote and the closers still awaited, innermost first. -/
def imbalance? : Option Char → List Char → List Char → Option Imbalance
  | some q, _, [] => some (.unterminated q)
  | none, [], [] => none
  | none, c :: _, [] => some (.missing c)
  | some q, open_, '\\' :: [] => imbalance? (some q) open_ []
  | some q, open_, '\\' :: _ :: cs => imbalance? (some q) open_ cs
  | some q, open_, c :: cs => imbalance? (if c == q then none else some q) open_ cs
  | none, open_, c :: cs =>
      if isQuote c then imbalance? (some c) open_ cs
      else
        match closer? c with
        | some close => imbalance? none (close :: open_) cs
        | none =>
            if isCloser c then
              match open_ with
              | top :: below => if top == c then imbalance? none below cs else some (.unexpected c)
              | [] => some (.unexpected c)
            else imbalance? none open_ cs

/-- The first bracket or quote imbalance of a text. -/
def findUnbalanced (s : String) : Option Imbalance :=
  imbalance? none [] s.toList

/-- Puts a character in front of the first part. -/
def consPart (c : Char) : List (List Char) → List (List Char)
  | part :: parts => (c :: part) :: parts
  | [] => [[c]]

/-- Whether a separator splits here: a bar next to a bar is an operator and does not. -/
def splitsHere (separator : Char) (previous : Option Char) (rest : List Char) : Bool :=
  !(separator == '|' && (rest.head? == some '|' || previous == some '|'))

/-- The parts between separators outside quotes and brackets. -/
def splitParts (separator : Char) :
    Option Char → Option Char → Nat → List Char → List (List Char)
  | _, _, _, [] => [[]]
  | _, some _, _, '\\' :: [] => [['\\']]
  | _, some q, depth, '\\' :: c :: cs =>
      consPart '\\' (consPart c (splitParts separator (some c) (some q) depth cs))
  | _, some q, depth, c :: cs =>
      consPart c (splitParts separator (some c) (if c == q then none else some q) depth cs)
  | previous, none, depth, c :: cs =>
      if isQuote c then consPart c (splitParts separator (some c) (some c) depth cs)
      else if isOpener c then consPart c (splitParts separator (some c) none (depth + 1) cs)
      else if isCloser c then consPart c (splitParts separator (some c) none (depth - 1) cs)
      else if c == separator && depth == 0 && splitsHere separator previous cs then
        [] :: splitParts separator (some c) none depth cs
      else consPart c (splitParts separator (some c) none depth cs)

/-- Splits at a character outside quotes and brackets. -/
def splitTopLevel (separator : Char) (s : String) : List String :=
  (splitParts separator none none 0 s.toList).map String.ofList

/-- The trimmed, non-blank parts between top-level semicolons. -/
def statements (s : String) : List String :=
  ((splitTopLevel ';' s).map trim).filter (· ≠ "")

/-- Where the outermost bracket opened in the text is closed, `index` being the place of the first
character. -/
def closingFrom? : Option Char → List Char → Nat → List Char → Option Nat
  | _, _, _, [] => none
  | some _, _, _, '\\' :: [] => none
  | some q, open_, index, '\\' :: _ :: cs => closingFrom? (some q) open_ (index + 2) cs
  | some q, open_, index, c :: cs =>
      closingFrom? (if c == q then none else some q) open_ (index + 1) cs
  | none, open_, index, c :: cs =>
      if isQuote c then closingFrom? (some c) open_ (index + 1) cs
      else
        match closer? c with
        | some close => closingFrom? none (close :: open_) (index + 1) cs
        | none =>
            if isCloser c then
              match open_ with
              | [top] => if top == c then some index else none
              | top :: below => if top == c then closingFrom? none below (index + 1) cs else none
              | [] => none
            else closingFrom? none open_ (index + 1) cs

/-- Where the bracket at `start` is closed. -/
def findClosing? (cs : List Char) (start : Nat) : Option Nat :=
  closingFrom? none [] start (cs.drop start)

/-- Characters that continue an expression over a line break, on either side of it. -/
def isContinuation (c : Char) : Bool :=
  ".?:+-*/%&|,=<>".toList.contains c

/-- Whether an expression ends at a line break, given the text before it, nearest first, and the
text from the break on. -/
def endsAtBreak (before rest : List Char) : Bool :=
  !(((rest.dropWhile isBlank).head?.map isContinuation).getD false) &&
    !(((before.dropWhile isBlank).head?.map isContinuation).getD false)

/-- Where an expression ends: at a closing bracket that it does not open, at a semicolon or comma,
or at a line break that no operator bridges. -/
def expressionEndFrom : Option Char → Nat → List Char → Nat → List Char → Nat
  | _, _, _, index, [] => index
  | some _, _, _, index, '\\' :: [] => index + 1
  | some q, depth, before, index, '\\' :: c :: cs =>
      expressionEndFrom (some q) depth (c :: '\\' :: before) (index + 2) cs
  | some q, depth, before, index, c :: cs =>
      expressionEndFrom (if c == q then none else some q) depth (c :: before) (index + 1) cs
  | none, depth, before, index, c :: cs =>
      if isQuote c then expressionEndFrom (some c) depth (c :: before) (index + 1) cs
      else if isOpener c then expressionEndFrom none (depth + 1) (c :: before) (index + 1) cs
      else if isCloser c then
        if depth = 0 then index
        else expressionEndFrom none (depth - 1) (c :: before) (index + 1) cs
      else if depth = 0 && (c == ';' || c == ',') then index
      else if depth = 0 && c == '\n' && endsAtBreak before (c :: cs) then index
      else expressionEndFrom none depth (c :: before) (index + 1) cs

/-- Where the expression that starts at `start` ends. -/
def expressionEnd (cs : List Char) (start : Nat) : Nat :=
  expressionEndFrom none 0 (cs.take start).reverse start (cs.drop start)

end ReactMigration.Script
