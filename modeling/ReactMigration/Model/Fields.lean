import ReactMigration.Framework
import ReactMigration.Model.Basic
import ReactMigration.Text.Pattern

/-!
Sorting the fields of a class into state, refs and constants.

A field is state if something other than the constructor changes it, a ref if it holds a template
element or a subscription, and a constant otherwise.
-/

namespace ReactMigration.Model

open ReactMigration.Text

/-- Any character except a line feed. -/
def notNewline (c : Char) : Bool :=
  c != '\n'

/-- Type arguments at the end of a type. -/
def genericTail : Pattern :=
  .text "<" ++ .anything ++ .text ">" ++ .last

/-- A type without its type arguments. -/
def baseType (typeName : String) : String :=
  trim (genericTail.replace "" typeName)

/-- The creation of a subject: its class, value type and constructor arguments. -/
def subjectPattern : Pattern :=
  .first ++ .text "new" ++ .blanks1 ++
    .group 1 (.oneOf ["BehaviorSubject", "ReplaySubject", "Subject"]) ++ .blanks ++
    .opt (.text "<" ++ .group 2 (.many notNewline 1 true) ++ .text ">") ++ .blanks ++
    .text "(" ++ .group 3 .anything ++ .text ")" ++ .last

/-- An equals sign that is not part of a comparison. -/
def assigns : Pattern :=
  .text "=" ++ .ahead false (.text "=")

/-- An assignment to a member of the instance: its name and the value. -/
def thisAssignPattern : Pattern :=
  .first ++ .text "this." ++ .group 1 .name ++ .blanks ++ assigns ++ .blanks ++
    .group 2 (.many (fun _ => true) 0 false) ++ .opt (.text ";") ++ .last

/-- Methods that change the array they are called on. -/
def mutatingMethods : List String :=
  ["push", "pop", "shift", "unshift", "splice", "sort", "reverse"]

/-- A change of a field: an assignment to it or to a part of it, an increment or decrement, or a
call that changes it in place. -/
def mutationPattern (name : String) : Pattern :=
  let member := Pattern.text ("this." ++ name)
  let step := Pattern.oneOf ["++", "--"]
  let sign := Pattern.one (fun c => "-+*/%".toList.contains c) <|> .oneOf ["??", "||", "&&"]
  let part := (.text "." ++ .name) <|> (.text "[" ++ .many (· != ']') 0 true ++ .text "]")
  (member ++ .blanks ++ .opt sign ++ assigns) <|>
    (member ++ .blanks ++ step) <|>
    (step ++ .blanks ++ member ++ .boundary) <|>
    (member ++ part ++ .star part ++ .blanks ++ assigns) <|>
    (member ++ .text "." ++ .oneOf mutatingMethods ++ .text "(")

/-- The decorators that ask for elements of the template. -/
def viewQueries : List String :=
  ["ViewChild", "ViewChildren", "ContentChild", "ContentChildren"]

/-- The query decorator of a field. -/
def viewQuery? (f : FieldDecl) : Option DecoratorInfo :=
  f.decorators.find? fun d => viewQueries.contains d.name

/-- The fields a constructor fills, each by its first assignment, and its other statements. -/
def constructorParts (d : DeclBase) : Table String × List String :=
  match d.method? "constructor" with
  | none => ([], [])
  | some c =>
      c.statements.foldl (fun (assigned, rest) s =>
        let filled :=
          match thisAssignPattern.lead? s.text with
          | some m =>
              if d.fields.any (·.name == m.group 1) && !Table.has assigned (m.group 1) then
                some (m.group 1, trim (m.group 2))
              else none
          | none => none
        match filled with
        | some (name, value) => (assigned ++ [(name, value)], rest)
        | none => if s.text.startsWith "super(" then (assigned, rest) else (assigned, rest ++ [s.text]))
        ([], [])

/-- Whether some method other than the constructor changes the field. -/
def mutatedInMethods (d : DeclBase) (name : String) : Bool :=
  (d.methods.filter (·.name != "constructor")).any fun m => (mutationPattern name).occurs m.body

/-- Whether a field holds a subscription: by its type, its initial value, or an assignment. -/
def holdsSubscription (d : DeclBase) (f : FieldDecl) : Bool :=
  let opened := Pattern.text ("this." ++ f.name) ++ .blanks ++ assigns ++ .many (· != ';') 0 true ++
    .text ".subscribe("
  occursIn "Subscription" (f.type.getD "") ||
    (f.initializer.getD "").startsWith "new Subscription" ||
    d.methods.any fun m => opened.occurs m.body

/-- What a field becomes. -/
inductive FieldRole where
  | state (cell : StateCell)
  | ref (cell : RefCell)
  | constant (cell : ConstantCell)
  deriving Repr

/-- The role of a field, given what the constructor fills and what the template changes. -/
def fieldRole (d : DeclBase) (assigned : Table String) (templateMutated : List String)
    (f : FieldDecl) : FieldRole :=
  let initial := f.initializer.orElse fun _ => assigned.get? f.name
  let isPublic := f.visibility == .anywhere
  if f.static then .constant { name := f.name, type := f.type, value := initial, static := true, isPublic }
  else if (viewQuery? f).isSome then .ref { name := f.name, type := f.type, element := true }
  else
    match subjectPattern.lead? (initial.getD "") with
    | some m =>
        let value := trim (m.group 3)
        .state
          { name := f.name, type := (m.group? 2).orElse fun _ => f.type
            initial := if value == "" then none else some value, origin := .subject, isPublic }
    | none =>
        if holdsSubscription d f then .ref { name := f.name, type := f.type, initial }
        else if templateMutated.contains f.name then
          .state { name := f.name, type := f.type, initial, origin := .twoWay, isPublic }
        else if mutatedInMethods d f.name then
          .state { name := f.name, type := f.type, initial, isPublic }
        else .constant { name := f.name, type := f.type, value := initial, isPublic }

/-- The roles of all fields in order. -/
def fieldRoles (d : DeclBase) (templateMutated : List String) : List FieldRole :=
  d.fields.map (fieldRole d (constructorParts d).1 templateMutated)

/-- Adds state, refs and constants to a model. -/
def classifyFields (d : DeclBase) (m : ModelBase) (templateMutated : List String) : ModelBase :=
  let roles := fieldRoles d templateMutated
  let state := roles.filterMap fun
    | .state c => some c
    | _ => none
  { m with
    state
    refs := roles.filterMap fun
      | .ref c => some c
      | _ => none
    constants := roles.filterMap fun
      | .constant c => some c
      | _ => none
    subjects := (state.filter (·.origin == .subject)).map (·.name) }

end ReactMigration.Model
