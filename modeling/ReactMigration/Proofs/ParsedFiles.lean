import ReactMigration.Proofs.Reading

/-!
A file is parsed once: its units are classified and read off one tree of its characters.

Classifying and reading each take the text of a file and parse it.  Here both take its tree, so that
the work of a given text can be computed from its characters in one go.
-/

namespace ReactMigration

open ReactMigration.TypeScript (Source Node)

namespace Declaration

/-- The units of a file whose tree is known. -/
def classifyTree (s : Source) (root : Node) (path text : String) :
    Except Finding (List SourceUnit) :=
  let units := (TypeScript.classes s root).filterMap fun c =>
    (kindOfClass? s c).map fun kind =>
      { path, text, kind := some kind, className := some c.name : SourceUnit }
  if !units.isEmpty then .ok units
  else if !(TypeScript.routeArrays s root).isEmpty then
    .ok [{ path, text, kind := some .routes }]
  else .error (nothingFound path text)

theorem classify_tree (path text : String) :
    classify path text =
      classifyTree (Source.ofString text) (TypeScript.parse text false) path text := rfl

/-- Reads a declaration off the tree of its file. -/
def readTree (s : Source) (root : Node) (resources : Resources) (u : SourceUnit) :
    Except Failure Declaration := do
  let refuse (message : String) : Failure :=
    .finding { kind := .declaration, message, unit := u.path }
  match u.kind with
  | none =>
      throw (.finding
        { kind := .unclassified, message := "Unit has not been classified", unit := u.path })
  | some kind =>
      if kind == .routes then return .routes (← readRoutes u s root)
      let shown := u.className.getD "None"
      match TypeScript.findClass? s root (u.className.getD "") with
      | none => throw (refuse s!"Class {shown} not found")
      | some c =>
          let expected := decoratorOf kind
          match c.decorators.find? fun d => TypeScript.decoratorName s d == expected with
          | none => throw (refuse s!"@{expected} decorator not found on {shown}")
          | some d =>
              let m ← metadataOf u kind s d
              let members := membersOf s c.node
              let base := baseOf u c.name members (importsOf s root)
              match kind with
              | .component => return .component (← buildComponent resources u m base members)
              | .service => return .service { base with providedIn := (m.get "providedIn").str? }
              | .pipe => return .pipe (← buildPipe u m base)
              | .directive =>
                  return .directive (← (buildDirective m base members (s.text c.node)).mapError .fault)
              | .module => return .module (← (buildModule m base s root).mapError .fault)
              | .routes => return .routes (← readRoutes u s root)

theorem read_tree (resources : Resources) (u : SourceUnit) :
    read resources u =
      readTree (Source.ofString u.text) (TypeScript.parse u.text false) resources u := by
  rfl

end Declaration

namespace Work

/-- Reads classified units off the tree of their file. -/
def readUnitsTree (s : Source) (root : Node) (resources : Sources) :
    Work → List SourceUnit → Except (Fault × Work) Work
  | w, [] => .ok w
  | w, u :: us =>
      match Declaration.readTree s root resources u with
      | .ok d => readUnitsTree s root resources { w with items := w.items ++ [.declaration d] } us
      | .error (.finding f) =>
          readUnitsTree s root resources
            { w with
              diagnostics := w.diagnostics ++ [.ofFinding f w.path]
              items := w.items ++ [unitStub u f.message] } us
      | .error (.fault f) => .error (f, w)

/-- Classifies and reads a file whose tree is known. -/
def readFileTree (s : Source) (root : Node) (resources : Sources) (w : Work) :
    Except (Fault × Work) Work :=
  match Declaration.classifyTree s root w.path w.text with
  | .ok units => readUnitsTree s root resources w units
  | .error f =>
      let noted := { w with diagnostics := w.diagnostics ++ [.ofFinding f w.path] }
      if f.kind == .unclassified then
        if TypeScript.declaresTypesOnly root then
          .ok { noted with items := [.types
            { name := Naming.typesModuleName w.path, sourcePath := w.path, text := w.text }] }
        else .ok noted
      else .ok { noted with items := [fileStub w.path w.text f.message] }

/-- A file after reading, from the characters of its text. -/
def prepareChars (resources : Sources) (path text : String) (cs : List Char) : Work :=
  match readFileTree ⟨cs⟩ (TypeScript.parseChars cs false) resources { path, text } with
  | .ok w => w
  | .error (f, w) =>
      { w with
        diagnostics := w.diagnostics ++
          [unitFailure path s!"Unexpected failure while parsing: {f.message}"]
        items := [fileStub path text s!"Parsing failed: {f.message}"] }

theorem readUnits_tree {text : String} (resources : Sources) (us : List SourceUnit)
    (same : ∀ u ∈ us, u.text = text) (w : Work) :
    readUnits resources w us =
      readUnitsTree (Source.ofString text) (TypeScript.parse text false) resources w us := by
  induction us generalizing w with
  | nil => rfl
  | cons u us ih =>
      obtain ⟨here, rest⟩ := List.forall_mem_cons.mp same
      rw [readUnits, readUnitsTree, Declaration.read_tree, here]
      -- a fault ends both readings with the same work; otherwise both go on with the other units
      cases Declaration.readTree _ _ resources u with
      | ok d => exact ih rest _
      | error failure =>
          cases failure with
          | finding f => exact ih rest _
          | fault f => rfl

theorem readFile_tree (resources : Sources) (path text : String) :
    readFile resources { path, text } =
      readFileTree (Source.ofString text) (TypeScript.parse text false) resources
        { path, text } := by
  unfold readFile readFileTree
  rw [← Declaration.classify_tree]
  cases found : Declaration.classify path text with
  | ok us =>
      exact readUnits_tree resources us
        (fun u hu => (Declaration.classify_yields path text us found u hu).2) _
  | error f => rfl

/-- Reading a text is reading its characters. -/
theorem prepare_chars (resources : Sources) (path : String) {text : String} {cs : List Char}
    (chars : text.toList = cs) :
    prepare resources path (some text) = prepareChars resources path text cs := by
  subst chars
  rw [prepare_some, readFile_tree, TypeScript.parse_chars]
  rfl

theorem map_prepare_chars (resources : Sources) (p q : String) {s t : String} {cs ds : List Char}
    (first : s.toList = cs) (second : t.toList = ds) :
    [(p, some s), (q, some t)].map (fun entry => prepare resources entry.1 entry.2) =
      [prepareChars resources p s cs, prepareChars resources q t ds] := by
  rw [List.map_cons, List.map_singleton, prepare_chars resources p first,
    prepare_chars resources q second]

end Work

theorem toList_ofList_append (a b : List Char) :
    (String.ofList a ++ String.ofList b).toList = a ++ b := by
  rw [String.toList_append, String.toList_ofList, String.toList_ofList]

end ReactMigration
