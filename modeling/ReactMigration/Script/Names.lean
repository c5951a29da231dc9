import ReactMigration.Script.Token.Lexer
import ReactMigration.Script.Balance

/-!
The names an expression refers to, their replacement, and assignments.
-/

namespace ReactMigration.Script

open ReactMigration.Text

/-- Whether a token is a variable reference, given its neighbours: an identifier that is neither a
member name nor the key of an object. -/
def isReference (previous : Option Token) (t : Token) (next : Option Token) : Bool :=
  t.kind == .identifier &&
    !((previous.map (·.isPunctuator ".")).getD false) &&
    !((next.map (·.isPunctuator ":")).getD false &&
      (previous.map fun p => p.text == "\x7b" || p.text == ",").getD false)

/-- The variable references among tokens, `previous` being the token before them. -/
def references : Option Token → List Token → List Token
  | _, [] => []
  | previous, t :: ts =>
      if isReference previous t ts.head? then t :: references (some t) ts
      else references (some t) ts

/-- The names an expression refers to, each once, by first use. -/
def extractIdentifiers (s : String) : Except Fault (List String) := do
  let tokens ← tokenize s
  return ((references none tokens).map (·.text)).eraseDups

/-- Copies the text and replaces the edited stretches, `done` being the place reached. -/
def applyEdits : List (Nat × Nat × String) → Nat → List Char → List Char
  | [], _, cs => cs
  | (start, stop, replacement) :: edits, done, cs =>
      cs.take (start - done) ++ replacement.toList ++
        applyEdits edits stop (cs.drop (stop - done))

/-- Replaces variable references by their images, all at once. -/
def renameIdentifiers (s : String) (mapping : List (String × String)) : Except Fault String := do
  if mapping.isEmpty then return s
  let tokens ← tokenize s
  let edits := (references none tokens).filterMap fun t =>
    (mapping.lookup t.text).map fun image => (t.start, t.stop, image)
  return String.ofList (applyEdits edits 0 s.toList)

/-- A write to a target: `target operator value`. -/
structure Assignment where
  target : String
  operator : String
  value : String
  deriving Repr, DecidableEq

/-- Operators that assign. -/
def assignmentOperators : List String :=
  ["=", "+=", "-=", "*=", "/=", "%=", "||=", "&&=", "??="]

/-- The first assignment outside brackets among tokens. -/
def assignmentIn (cs : List Char) : Int → List Token → Option Assignment
  | _, [] => none
  | depth, t :: ts =>
      let part (a b : Nat) : String := String.ofList (stripWith isBlank (slice cs a b))
      if t.kind != .punctuator then assignmentIn cs depth ts
      else if t.text == "(" || t.text == "[" || t.text == "\x7b" then assignmentIn cs (depth + 1) ts
      else if t.text == ")" || t.text == "]" || t.text == "\x7d" then assignmentIn cs (depth - 1) ts
      else if depth == 0 && assignmentOperators.contains t.text then
        some ⟨part 0 t.start, t.text, part t.stop cs.length⟩
      else if depth == 0 && (t.text == "++" || t.text == "--") && ts.isEmpty then
        some ⟨part 0 t.start, (if t.text == "++" then "+=" else "-="), "1"⟩
      else assignmentIn cs depth ts

/-- The assignment a statement makes, an increment or decrement counting as one. -/
def splitAssignment (s : String) : Except Fault (Option Assignment) := do
  let tokens ← tokenize s
  return assignmentIn s.toList 0 tokens

end ReactMigration.Script
