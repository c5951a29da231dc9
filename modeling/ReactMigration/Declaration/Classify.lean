import ReactMigration.Declaration.Basic
import ReactMigration.Text.Pattern
import ReactMigration.TypeScript.Outline

/-!
Which declarations a source file holds: one unit per decorated class, or one unit of routes.
-/

namespace ReactMigration.Declaration

open ReactMigration.Text
open ReactMigration.TypeScript (Source)

/-- The decorators that declare something, by name. -/
def decoratorKinds : List (String × UnitKind) :=
  [("Component", .component), ("Injectable", .service), ("Pipe", .pipe),
   ("Directive", .directive), ("NgModule", .module)]

/-- The decorator that declares a kind. -/
def decoratorOf (kind : UnitKind) : String :=
  ((decoratorKinds.find? (·.2 == kind)).map (·.1)).getD ""

/-- A declaring decorator as it appears in plain text. -/
def markerPattern : Pattern :=
  .text "@" ++ .group 1 (.oneOf (decoratorKinds.map (·.1))) ++ .blanks ++ .text "("

/-- The kind of the first declaring decorator of a class. -/
def kindOfClass? (s : Source) (c : TypeScript.ClassOutline) : Option UnitKind :=
  c.decorators.findSome? fun d => decoratorKinds.lookup (TypeScript.decoratorName s d)

/-- The finding about a file that declares nothing readable: a declaring decorator in the text means
that its class could not be read. -/
def nothingFound (path text : String) : Finding :=
  match markerPattern.find? text with
  | some m =>
      let before := (text.toList.take m.start).reverse
      { kind := .declaration
        message := s!"@{m.group 1} metadata found but no decorated class could be parsed"
        unit := path
        line := some (before.count '\n' + 1 : Nat)
        column := some ((before.takeWhile (· != '\n')).length + 1 : Nat) }
  | none =>
      { kind := .unclassified
        message := "No recognizable Angular declaration marker"
        unit := path }

/-- The units of a source file. -/
def classify (path text : String) : Except Finding (List SourceUnit) :=
  let s := Source.ofString text
  let root := TypeScript.parse text false
  let units := (TypeScript.classes s root).filterMap fun c =>
    (kindOfClass? s c).map fun kind =>
      { path, text, kind := some kind, className := some c.name : SourceUnit }
  if !units.isEmpty then .ok units
  else if !(TypeScript.routeArrays s root).isEmpty then
    .ok [{ path, text, kind := some .routes }]
  else .error (nothingFound path text)

end ReactMigration.Declaration
