import ReactMigration.Text.Path
import ReactMigration.Text.Pattern

/-!
Names of generated symbols, derived from the words of a declaration's name.
-/

namespace ReactMigration.Naming

open ReactMigration.Text

/-- The ASCII letters and digits, grouped into the maximal runs the text holds. -/
def alphanumericRuns : List Char → List (List Char)
  | [] => []
  | c :: cs =>
      if c.isAlphanum then
        match cs with
        | [] => [[c]]
        | d :: _ =>
            if d.isAlphanum then
              match alphanumericRuns cs with
              | run :: runs => (c :: run) :: runs
              | [] => [[c]]
            else [c] :: alphanumericRuns cs
      else alphanumericRuns cs

/-- A lower-case letter or a digit. -/
def isWordTail (c : Char) : Bool :=
  c.isLower || c.isDigit

/-- Whether a new word starts at `next`, given the character before it and the one after it: an
upper-case letter starts a word after a lower-case letter or digit, and also after an upper-case
letter when a lower-case letter or digit follows it. -/
def startsWord (previous next : Char) (after : List Char) : Bool :=
  next.isUpper && (isWordTail previous || (after.head?.map isWordTail).getD false)

/-- The words of one alphanumeric run. -/
def runWords : List Char → List (List Char)
  | [] => []
  | [c] => [[c]]
  | c :: d :: cs =>
      if startsWord c d cs then [c] :: runWords (d :: cs)
      else
        match runWords (d :: cs) with
        | word :: words => (c :: word) :: words
        | [] => [[c]]

/-- The words of a camel-case, kebab-case or snake-case name. -/
def splitWords (s : String) : List String :=
  ((alphanumericRuns s.toList).flatMap runWords).map String.ofList

/-- The words with capital first letters, joined. -/
def pascalCase (s : String) : String :=
  String.join ((splitWords s).map upperFirst)

/-- Pascal case with a small first letter. -/
def camelCase (s : String) : String :=
  lowerFirst (pascalCase s)

/-- The endings that mark what a class declares. -/
def declarationSuffixes : List String :=
  ["Component", "Directive", "Service", "Pipe", "Module"]

/-- The class name without its declaration ending; a name that is only the ending is kept. -/
def stripDeclarationSuffix (className : String) : String :=
  match declarationSuffixes.find? fun suffix =>
      className.endsWith suffix && suffix.length < className.length with
  | some suffix => (className.dropEnd suffix.length).toString
  | none => className

/-- The hook of a service or directive. -/
def hookName (name : String) : String :=
  "use" ++ upperFirst name

/-- The callback prop of an output. -/
def callbackPropName (output : String) : String :=
  "on" ++ upperFirst output

/-- The function that replaces a state variable. -/
def setterName (state : String) : String :=
  "set" ++ upperFirst state

/-! ### Names of generated modules -/

/-- The component of a class. -/
def componentName (className : String) : String :=
  let name := pascalCase (stripDeclarationSuffix className)
  if name == "" then className else name

/-- The hook of a service class. -/
def serviceHookName (className : String) : String :=
  hookName (pascalCase className)

/-- The function of a pipe. -/
def pipeFunctionName (pipe : String) : String :=
  camelCase pipe

/-- The hook of a pipe. -/
def pipeHookName (pipe : String) : String :=
  hookName (pascalCase pipe)

/-- The hook of a directive that only touches its host. -/
def directiveHookName (className : String) : String :=
  hookName (componentName className)

/-- The wrapper of a directive that renders markup. -/
def directiveWrapperName (className : String) : String :=
  "with" ++ componentName className

/-- The stem of the names of a module's context and routes. -/
def moduleBaseName (className : String) : String :=
  let base := stripDeclarationSuffix className
  let stem := (Pattern.text "Routing" ++ .last).replace "" base
  pascalCase (if stem == "" then base else stem)

/-- The ending of a source file. -/
def sourceEnding : Pattern :=
  .text ".ts" ++ .last

/-- The endings of a file of routes. -/
def routeEnding : Pattern :=
  let part := Pattern.one (fun c => c == '.' || c == '-') ++ .oneOf ["routes", "routing", "module"]
  part ++ .star part ++ .last

/-- The stem of the names of a table of routes, from the path of its unit. -/
def routeBaseName (sourcePath : String) : String :=
  let stem := sourceEnding.replace "" (Path.fileName sourcePath)
  let name := pascalCase (routeEnding.replace "" stem)
  if name == "" then "App" else name

/-- The context, provider and hook of a module. -/
def contextNames (className : String) : String × String × String :=
  let base := moduleBaseName className
  (base ++ "Context", base ++ "Provider", "use" ++ base ++ "Context")

/-- The component and the table of routes with a stem. -/
def routesNames (base : String) : String × String :=
  (base ++ "Routes", lowerFirst base ++ "Routes")

/-- The module of a unit that keeps its own name. -/
def typesModuleName (sourcePath : String) : String :=
  sourceEnding.replace "" (Path.fileName sourcePath)

end ReactMigration.Naming
