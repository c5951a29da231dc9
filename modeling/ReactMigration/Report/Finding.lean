import ReactMigration.Fault

/-!
Findings about one source unit: what is wrong, in which unit, and where.
-/

namespace ReactMigration

/-- What a finding is about. -/
inductive FindingKind where
  /-- A declaration is present but cannot be read. -/
  | declaration
  /-- The unit declares nothing this converter knows. -/
  | unclassified
  /-- A template cannot be read, for no more specific reason. -/
  | template
  /-- Template markup is unterminated or invalid, possibly in one attribute. -/
  | markup (attr : Option String)
  /-- An element carries several structural directives. -/
  | duplicateStructural (element : String) (directives : List String)
  /-- Any other finding. -/
  | other
  deriving Repr, DecidableEq, Inhabited

/-- A finding about a unit. -/
structure Finding where
  kind : FindingKind
  message : String
  unit : String := ""
  line : Option Int := none
  column : Option Int := none
  deriving Repr, DecidableEq, Inhabited

/-- How a missing number reads in a message. -/
def numberOrNone : Option Int → String
  | some n => toString n
  | none => "None"

/-- A finding about markup; the message names the attribute and the place when they are known. -/
def Finding.markup (message : String) (attr : Option String) (line column : Option Int)
    (unit : String) : Finding :=
  let subject :=
    match attr with
    | some name => if name == "" then "" else s!" in attribute '{name}'"
    | none => ""
  let place :=
    match line with
    | some n => s!" at line {n}, column {numberOrNone column}"
    | none => ""
  { kind := .markup attr, message := message ++ subject ++ place, unit, line, column }

/-- A finding about an element with several structural directives. -/
def Finding.duplicateStructural (element : String) (directives : List String)
    (line column : Option Int) (unit : String) : Finding :=
  let names := ", ".intercalate (directives.map ("*" ++ ·))
  { kind := .duplicateStructural element directives
    message := s!"Element <{element}> carries multiple structural directives ({names}) " ++
      s!"at line {numberOrNone line}, column {numberOrNone column}"
    unit, line, column }

/-- Why a unit could not be converted. -/
inductive Failure where
  | finding (f : Finding)
  | fault (f : Fault)
  deriving Repr, DecidableEq, Inhabited

/-- The text of a failure in a report. -/
def Failure.message : Failure → String
  | .finding f => f.message
  | .fault f => f.message

end ReactMigration
