import ReactMigration.Json.Printer
import ReactMigration.Report.Finding

/-!
Diagnostics of a run: what was noticed in which unit, how serious it is, and the report that
collects them in order.
-/

namespace ReactMigration

/-- How serious a diagnostic is. -/
inductive Severity where
  | info
  | warning
  | error
  deriving Repr, DecidableEq, Inhabited

/-- The name of a severity. -/
def Severity.label : Severity → String
  | .info => "info"
  | .warning => "warning"
  | .error => "error"

/-- What a diagnostic is about. -/
inductive DiagnosticCode where
  | malformedDeclaration
  | malformedTemplate
  | unclassifiedUnit
  | duplicateStructuralDirective
  | unresolvedReference
  | manualReviewRequired
  | keyFallback
  | unsupportedConstruct
  | unitFailure
  deriving Repr, DecidableEq, Inhabited

/-- The name of a code. -/
def DiagnosticCode.label : DiagnosticCode → String
  | .malformedDeclaration => "MalformedDeclarationError"
  | .malformedTemplate => "MalformedTemplateError"
  | .unclassifiedUnit => "UnclassifiedUnitError"
  | .duplicateStructuralDirective => "DuplicateStructuralDirectiveError"
  | .unresolvedReference => "UnresolvedReferenceWarning"
  | .manualReviewRequired => "ManualReviewRequired"
  | .keyFallback => "KeyFallbackWarning"
  | .unsupportedConstruct => "UnsupportedConstructWarning"
  | .unitFailure => "UnitFailure"

/-- All codes. -/
def DiagnosticCode.all : List DiagnosticCode :=
  [.malformedDeclaration, .malformedTemplate, .unclassifiedUnit, .duplicateStructuralDirective,
   .unresolvedReference, .manualReviewRequired, .keyFallback, .unsupportedConstruct, .unitFailure]

/-- A remark about a unit. -/
structure Diagnostic where
  unit : String
  severity : Severity
  code : DiagnosticCode
  message : String
  line : Option Int := none
  column : Option Int := none
  deriving Repr, DecidableEq, Inhabited

/-- The code and severity a finding is reported with. -/
def FindingKind.reportedAs : FindingKind → DiagnosticCode × Severity
  | .declaration => (.malformedDeclaration, .error)
  | .unclassified => (.unclassifiedUnit, .warning)
  | .duplicateStructural _ _ => (.duplicateStructuralDirective, .error)
  | .markup _ => (.malformedTemplate, .error)
  | .template => (.unitFailure, .error)
  | .other => (.unitFailure, .error)

/-- A finding as a diagnostic of a unit. -/
def Diagnostic.ofFinding (f : Finding) (unit : String) : Diagnostic :=
  let (code, severity) := f.kind.reportedAs
  { unit, severity, code, message := f.message, line := f.line, column := f.column }

/-- The diagnostic as a JSON object; an unknown place is left out. -/
def Diagnostic.toJson (d : Diagnostic) : Json :=
  let place (key : String) (n : Option Int) : List (String × Json) :=
    match n with
    | some n => [(key, .int n)]
    | none => []
  .obj ([("unit", .str d.unit), ("severity", .str d.severity.label), ("code", .str d.code.label),
    ("message", .str d.message)] ++ place "line" d.line ++ place "column" d.column)

/-- The diagnostic as one line of text. -/
def Diagnostic.format (d : Diagnostic) : String :=
  let place :=
    match d.line with
    | some n => s!":{n}:{numberOrNone d.column}"
    | none => ""
  s!"{d.unit}{place}: {d.severity.label}: [{d.code.label}] {d.message}"

/-- The diagnostics of a run in order. -/
structure Report where
  diagnostics : List Diagnostic := []
  deriving Repr, Inhabited

namespace Report

/-- The diagnostics with a code. -/
def byCode (r : Report) (code : DiagnosticCode) : List Diagnostic :=
  r.diagnostics.filter (·.code == code)

/-- The diagnostics of a unit. -/
def forUnit (r : Report) (unit : String) : List Diagnostic :=
  r.diagnostics.filter (·.unit == unit)

/-- How many diagnostics have a severity. -/
def count (r : Report) (s : Severity) : Nat :=
  (r.diagnostics.filter (·.severity == s)).length

/-- Whether something was an error. -/
def hasErrors (r : Report) : Bool :=
  r.diagnostics.any (·.severity == .error)

/-- The number of diagnostics of each severity. -/
def summary (r : Report) : Json :=
  .obj ([Severity.info, .warning, .error].map fun s => (s.label, .int (r.count s)))

/-- The report as a JSON object. -/
def toJson (r : Report) : Json :=
  .obj [("summary", r.summary), ("diagnostics", .arr (r.diagnostics.map Diagnostic.toJson))]

/-- The report as JSON text over several lines. -/
def jsonText (r : Report) : String :=
  r.toJson.indented 0

/-- The report as text: one line a diagnostic and a line of totals. -/
def text (r : Report) : String :=
  if r.diagnostics.isEmpty then "No diagnostics."
  else
    let totals := s!"{r.count .error} error(s), {r.count .warning} warning(s), " ++
      s!"{r.count .info} info"
    "\n".intercalate (r.diagnostics.map Diagnostic.format ++ [totals])

end Report

/-! ### Noting diagnostics on the way -/

/-- The diagnostics noted about one unit, in order. -/
structure Sink where
  unit : String
  items : List Diagnostic := []
  deriving Inhabited

/-- Adds a diagnostic. -/
def Sink.add (s : Sink) (severity : Severity) (code : DiagnosticCode) (message : String)
    (line column : Option Int) : Sink :=
  { s with items := s.items ++ [{ unit := s.unit, severity, code, message, line, column }] }

/-- Adds a finding. -/
def Sink.record (s : Sink) (f : Finding) : Sink :=
  { s with items := s.items ++ [.ofFinding f s.unit] }

/-- Work on a unit that notes diagnostics and may break off; what was noted before stays. -/
abbrev Noting := ExceptT Fault (StateM Sink)

namespace Noting

/-- Notes a warning at a place. -/
def warnAt (code : DiagnosticCode) (message : String) (line column : Option Int) : Noting Unit :=
  modify fun s => s.add .warning code message line column

/-- Notes a warning. -/
def warn (code : DiagnosticCode) (message : String) : Noting Unit :=
  warnAt code message none none

/-- Takes over the result of work that notes nothing. -/
def lift {α : Type} (r : Except Fault α) : Noting α :=
  match r with
  | .ok x => pure x
  | .error f => throw f

end Noting

end ReactMigration
