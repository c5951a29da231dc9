import ReactMigration.Target.Support

/-!
The imports of one generated module, gathered while its parts are converted.  Names from one place
share one import, kept where the place was first seen.
-/

namespace ReactMigration

open ReactMigration.Text

/-- Imports in order of first use, no two for the same place. -/
abbrev Imports := List ImportSpec

namespace Imports

/-- Whether an import is for the same place and of the same kind as another. -/
def samePlace (a b : ImportSpec) : Bool :=
  a.module == b.module && a.target == b.target && a.typeOnly == b.typeOnly && a.prune == b.prune

/-- Adds what an import brings to the one for the same place: its names, a default that is not
empty, and the wish for the module's effect. -/
def absorb (old new : ImportSpec) : ImportSpec :=
  { old with
    names := new.names.foldl (fun ns n => if n == "" || ns.contains n then ns else ns ++ [n]) old.names
    default := if present new.default then new.default else old.default
    sideEffect := old.sideEffect || new.sideEffect }

/-- Adds an import. -/
def add : Imports → ImportSpec → Imports
  | [], new => [absorb { module := new.module, target := new.target, typeOnly := new.typeOnly,
                         prune := new.prune } new]
  | old :: rest, new =>
      if samePlace old new then absorb old new :: rest else old :: add rest new

/-- Names from a package. -/
def fromPackage (module : String) (i : Imports) (names : List String) : Imports :=
  names.foldl (fun i n => i.add { names := [n], module := some module }) i

/-- Names from the view library. -/
def react (i : Imports) (names : List String) : Imports :=
  fromPackage "react" i names

/-- Names from the router. -/
def router (i : Imports) (names : List String) : Imports :=
  fromPackage "react-router-dom" i names

/-- Types from the view library. -/
def reactType (i : Imports) (name : String) : Imports :=
  i.add { names := [name], module := some "react", typeOnly := true }

/-- A name that another generated module exports. -/
def named (i : Imports) (ref : ArtifactRef) (name : String) : Imports :=
  i.add { names := [name], target := some ref }

/-- What another generated module exports by default. -/
def defaultOf (i : Imports) (ref : ArtifactRef) (name : String) : Imports :=
  i.add { default := some name, target := some ref }

/-- A module that is loaded for its effect. -/
def sideEffect (i : Imports) (ref : ArtifactRef) : Imports :=
  i.add { target := some ref, sideEffect := true }

/-- Names of the stream library that have no meaning in generated code. -/
def droppedStreamNames : List String :=
  ["Subject", "BehaviorSubject", "ReplaySubject", "Subscription", "firstValueFrom",
   "lastValueFrom"]

/-- The source file that a relative import of a unit names. -/
def resolveRelative (sourcePath module : String) : String :=
  let path := Path.normalize (Path.join (Path.directory sourcePath) module)
  if path.endsWith ".ts" then path else path ++ ".ts"

/-- Carries one import of a unit over. -/
def carryOne (index : SymbolIndex) (sourcePath : String) (i : Imports) (d : ImportDecl) : Imports :=
  let streams := d.module == "rxjs" || d.module.startsWith "rxjs/"
  let names := if streams then d.names.filter (!droppedStreamNames.contains ·) else d.names
  if d.module.startsWith "@angular/" || (streams && names.isEmpty) then i
  else if d.module.startsWith "." then
    let path := resolveRelative sourcePath d.module
    if index.isTypesUnit path then
      names.foldl (fun i n => i.add
        { names := [n], target := some (.types path), typeOnly := true, prune := true }) i
    else i
  else
    let i :=
      if present d.whole then
        i.add { module := some d.module, default := d.whole.map ("* as " ++ ·), prune := true }
      else i
    let i :=
      if present d.default then i.add { module := some d.module, default := d.default, prune := true }
      else i
    names.foldl (fun i n => i.add { names := [n], module := some d.module, prune := true }) i

/-- Carries the imports of a unit over to its generated module, except those of the source
framework and of other converted units. -/
def carry (index : SymbolIndex) (sourcePath : String) (i : Imports) (ds : List ImportDecl) :
    Imports :=
  ds.foldl (carryOne index sourcePath) i

end Imports

/-- The local name that an imported name is bound to. -/
def boundName (name : String) : String :=
  trim (((Pattern.text " as ").split name).getLast?.getD "")

/-- Whether an imported name is used in a text. -/
def isReferenced (name text : String) : Bool :=
  (Pattern.notAfter Pattern.isPath ++ .text (boundName name) ++ .boundary).occurs text

end ReactMigration
