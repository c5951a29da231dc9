import ReactMigration.Declaration.Basic
import ReactMigration.Text.Pattern

/-!
The index of declared names over all units.  It is filled first and then sealed; lookups happen on
the sealed index, so they all see the same declarations.
-/

namespace ReactMigration

open ReactMigration.Text

/-- A declared name. -/
structure Symbol where
  name : String
  kind : UnitKind
  unit : String
  declaration : Declaration
  deriving Inhabited

/-! ### Selectors -/

/-- A character of a selector's name. -/
def isSelectorChar (c : Char) : Bool :=
  isWord c || c == '-'

/-- An attribute in brackets, with an optional value. -/
def attributeSelector : Pattern :=
  .text "[" ++ .group 1 (.many isSelectorChar 1 true) ++
    .opt (.text "=" ++ .many (· != ']') 0 true) ++ .text "]"

/-- An element name at the front of a selector. -/
def elementSelector? (part : String) : Option String :=
  match part.toList with
  | c :: cs =>
      if isAsciiLetter c then some (String.ofList (c :: cs.takeWhile isSelectorChar)) else none
  | [] => none

/-- The element names and attribute names of a selector list; a part with attributes counts by them
alone. -/
def parseSelector (selector : Option String) : List String × List String :=
  let parts := (splitAt ',' (selector.getD "")).map trim
  let read := parts.map fun part =>
    let attrs := (attributeSelector.findAll part).map (·.group 1)
    if attrs.isEmpty then ((elementSelector? part).toList, []) else ([], attrs)
  (read.flatMap (·.1), read.flatMap (·.2))

/-! ### The index -/

/-- Declared names by role. -/
structure SymbolIndex where
  isSealed : Bool := false
  symbols : Table Symbol := []
  pipes : Table Symbol := []
  elements : Table Symbol := []
  attributes : Table Symbol := []
  routeTables : Table Symbol := []
  typesUnits : List String := []
  deriving Inhabited

namespace SymbolIndex

/-- Why a registration was refused. -/
inductive RegisterError where
  | isSealed
  deriving Repr, DecidableEq

/-- The text of a refusal. -/
def RegisterError.message : RegisterError → String
  | .isSealed => "Symbol index is sealed; no further registration is allowed"

/-- Adds each key that is not yet taken. -/
def claim (t : Table Symbol) (keys : List String) (s : Symbol) : Table Symbol :=
  keys.foldl (fun t key => t.setNew key s) t

/-- Adds the entries by which templates refer to a declaration. -/
def addRoles (index : SymbolIndex) (s : Symbol) : SymbolIndex :=
  let selected (selector : Option String) : SymbolIndex :=
    let (elements, attributes) := parseSelector selector
    { index with
      elements := claim index.elements elements s
      attributes := claim index.attributes attributes s }
  match s.declaration with
  | .pipe d => { index with pipes := index.pipes.setNew d.pipeName s }
  | .component d => selected d.selector
  | .directive d => selected d.selector
  | _ => index

/-- Registers a declaration; the answer is false for a name that is already taken. -/
def register (index : SymbolIndex) (d : Declaration) :
    Except RegisterError (Bool × SymbolIndex) :=
  if index.isSealed then .error .isSealed
  else
    let s : Symbol := ⟨d.name, d.kind, d.base.sourcePath, d⟩
    match d with
    | .routes _ => .ok (true, { index with routeTables := index.routeTables.setNew d.name s })
    | _ =>
        if index.symbols.has d.name then .ok (false, index)
        else .ok (true, addRoles { index with symbols := index.symbols.setNew d.name s } s)

/-- Registers a unit of types alone. -/
def registerTypes (index : SymbolIndex) (path : String) : Except RegisterError SymbolIndex :=
  if index.isSealed then .error .isSealed
  else if index.typesUnits.contains path then .ok index
  else .ok { index with typesUnits := index.typesUnits ++ [path] }

/-- Ends registration. -/
def sealed (index : SymbolIndex) : SymbolIndex :=
  { index with isSealed := true }

/-- The sealed index of the given declarations and units of types. -/
def build (declarations : List Declaration) (typesUnits : List String) : SymbolIndex :=
  let step (index : SymbolIndex) (d : Declaration) : SymbolIndex :=
    match index.register d with
    | .ok (_, next) => next
    | .error _ => index
  let typed (index : SymbolIndex) (path : String) : SymbolIndex :=
    match index.registerTypes path with
    | .ok next => next
    | .error _ => index
  (typesUnits.foldl typed (declarations.foldl step {})).sealed

/-- The symbol of a class. -/
def lookup (index : SymbolIndex) (name : String) : Option Symbol :=
  index.symbols.get? name

/-- The pipe that templates use under a name. -/
def pipe (index : SymbolIndex) (name : String) : Option Symbol :=
  index.pipes.get? name

/-- The component or directive that an element selects. -/
def element (index : SymbolIndex) (tag : String) : Option Symbol :=
  index.elements.get? tag

/-- The directive that an attribute selects. -/
def attr (index : SymbolIndex) (name : String) : Option Symbol :=
  index.attributes.get? name

/-- The table of routes that a name stands for. -/
def routeTable (index : SymbolIndex) (name : String) : Option Symbol :=
  index.routeTables.get? name

/-- Whether a unit holds nothing but types. -/
def isTypesUnit (index : SymbolIndex) (path : String) : Bool :=
  index.typesUnits.contains path

/-- The symbols of a unit in order of registration. -/
def unitSymbols (index : SymbolIndex) (path : String) : List Symbol :=
  index.symbols.values.filter (·.unit == path)

/-- The registered names in order. -/
def names (index : SymbolIndex) : List String :=
  index.symbols.keys.mergeSort (· ≤ ·)

end SymbolIndex

end ReactMigration
