import ReactMigration.Script.Balance
import ReactMigration.Template.Node
import ReactMigration.Text.Pattern

/-!
Reading the expressions of a template: pipes, and the clauses of structural directives.
-/

namespace ReactMigration.Template

open ReactMigration.Text

/-- Applies the pipes written in `segments` from left to right. -/
def applyPipes (position : Option Position) : BoundValue → List String → BoundValue
  | value, [] => value
  | value, segment :: segments =>
      let pieces := (Script.splitTopLevel ':' segment).map trim
      applyPipes position (.pipe (pieces.headD "") value pieces.tail position) segments

/-- Reads `value | pipe:arg | …`; the outermost pipe is the rightmost one. -/
def parseBoundValue (expression : String) (position : Option Position) : BoundValue :=
  match Script.splitTopLevel '|' expression with
  | [] => .text ""
  | base :: segments => applyPipes position (.text (trim base)) segments

/-- Whether an expression applies a pipe. -/
def hasPipes (expression : String) : Bool :=
  1 < (Script.splitTopLevel '|' expression).length

/-! ### Clauses of structural directives -/

/-- A keyword that is followed by white space: the rest after both. -/
def dropKeyword? (keyword : String) (cs : List Char) : Option (List Char) :=
  match dropLead? keyword.toList cs with
  | some (c :: rest) => if isBlank c then some (rest.dropWhile isBlank) else none
  | _ => none

/-- A word at the front and the rest. -/
def takeWord? (cs : List Char) : Option (List Char × List Char) :=
  match cs.takeWhile isWord with
  | [] => none
  | w => some (w, cs.dropWhile isWord)

/-- At least one white space, dropped. -/
def dropBlanks1? : List Char → Option (List Char)
  | c :: cs => if isBlank c then some (cs.dropWhile isBlank) else none
  | [] => none

/-- `let item of items`: the item's name and the items. -/
def loopHead? (s : String) : Option (String × String) := do
  let rest ← dropKeyword? "let" s.toList
  let (item, rest) ← takeWord? rest
  let rest ← dropBlanks1? rest
  let rest ← dropKeyword? "of" rest
  if rest.isEmpty then none
  else some (String.ofList item, trim (String.ofList rest))

/-- `let name = source`: the name and the source. -/
def letClause? (s : String) : Option (String × String) := do
  let rest ← dropKeyword? "let" s.toList
  let (name, rest) ← takeWord? rest
  match rest.dropWhile isBlank with
  | '=' :: rest =>
      let (source, rest) ← takeWord? (rest.dropWhile isBlank)
      if rest.isEmpty then some (String.ofList name, String.ofList source) else none
  | _ => none

/-- `source as name`: the name and the source. -/
def asClause? (s : String) : Option (String × String) := do
  let (source, rest) ← takeWord? s.toList
  let rest ← dropBlanks1? rest
  let rest ← dropKeyword? "as" rest
  let (name, rest) ← takeWord? rest
  if rest.isEmpty then some (String.ofList name, String.ofList source) else none

/-- `expression as name` at the end of a trimmed text: the expression and the name. -/
def aliasEnd? (s : String) : Option (String × String) := do
  let (name, rest) ← takeWord? s.toList.reverse
  let rest ← dropBlanks1? rest
  let rest ← dropLead? ['s', 'a'] rest
  let rest ← dropBlanks1? rest
  if rest.isEmpty then none
  else some (trim (String.ofList rest.reverse), String.ofList name.reverse)

/-- A reference to a template for the two outcomes of a condition. -/
def branchPattern : Pattern :=
  .boundary ++ .group 1 (.oneOf ["then", "else"]) ++ .blanks ++ .opt (.text ":") ++ .blanks ++
    .group 2 .word

/-- Records the template references of a condition. -/
def Clauses.setBranches (m : Clauses) : List Match → Clauses
  | [] => m
  | b :: bs =>
      let m := if b.group 1 == "then" then { m with thenRef := some (b.group 2) }
        else { m with elseRef := some (b.group 2) }
      m.setBranches bs

/-- Whether a directive is the conditional one. -/
def isCondition (directive : String) : Bool :=
  directive == "ngIf"

/-- Reads the first clause. -/
def readHead (directive head : String) : Clauses :=
  match loopHead? head with
  | some (item, items) => { expression := items, item := some item }
  | none =>
      let m : Clauses :=
        match aliasEnd? head with
        | some (expression, name) => { expression, asName := some name }
        | none => { expression := head }
      let branches := branchPattern.findAll head
      if !branches.isEmpty && isCondition directive then
        { m with expression := trim (branchPattern.replace "" m.expression) }.setBranches branches
      else m

/-- Splits `key: value` or `key value`. -/
def keyed? (s : String) : Option (String × String) :=
  match breakOn? [':'] s.toList with
  | some (key, value) => some (trim (String.ofList key), trim (String.ofList value))
  | none =>
      let cs := s.toList.dropWhile isBlank
      let key := cs.takeWhile (!isBlank ·)
      let value := (cs.dropWhile (!isBlank ·)).dropWhile isBlank
      if value.isEmpty then none else some (String.ofList key, trim (String.ofList value))

/-- Reads one clause after the first. -/
def readClause (directive : String) (m : Clauses) (segment : String) : Clauses :=
  match letClause? segment with
  | some (name, source) => { m with locals := m.locals.set name source }
  | none =>
      match asClause? segment with
      | some (name, source) => { m with locals := m.locals.set name source }
      | none =>
          let branches := branchPattern.findAll segment
          if !branches.isEmpty && isCondition directive then m.setBranches branches
          else
            match keyed? segment with
            | some (key, value) =>
                if key == "trackBy" then { m with trackBy := some value }
                else { m with extra := m.extra.set key value }
            | none => m

/-- Reads the expression of a structural directive. -/
def parseClauses (directive expression : String) : Clauses :=
  match Script.statements expression with
  | [] => { expression := "" }
  | head :: segments => segments.foldl (readClause directive) (readHead directive head)

end ReactMigration.Template
