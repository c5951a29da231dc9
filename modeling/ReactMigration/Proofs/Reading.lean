import ReactMigration.Proofs.Outcome
import ReactMigration.Run.Work

/-!
What reading a source file yields: everything that it gives stands under the file's path, and whatever
goes wrong on the way is noted for the file.
-/

namespace ReactMigration

open ReactMigration.Text

/-- A value that the computation gives has the property. -/
def Yields {ε α : Type} (x : Except ε α) (P : α → Prop) : Prop :=
  ∀ a, x = .ok a → P a

namespace Yields

variable {ε α β : Type} {x : Except ε α} {P : α → Prop} {R : β → Prop}

theorem ok {a : α} (h : P a) : Yields (.ok a : Except ε α) P := by
  intro b hb
  cases hb
  exact h

theorem error (e : ε) : Yields (.error e : Except ε α) P := by
  intro b hb
  cases hb

theorem bind {f : α → Except ε β} (hx : Yields x P) (hf : ∀ a, P a → Yields (f a) R) :
    Yields (x >>= f) R := by
  intro b hb
  obtain ⟨a, ha, hb⟩ := ok_of_bind hb
  exact hf a (hx a ha) b hb

theorem any : Yields x fun _ => True :=
  fun _ _ => trivial

theorem mapError {ε' : Type} {f : ε → ε'} (hx : Yields x P) : Yields (x.mapError f) P := by
  cases x with
  | error e => exact error _
  | ok a => exact ok (hx a rfl)

end Yields

/-! ### Declarations -/

namespace Declaration

variable {resources : Resources} {u : SourceUnit} {m : Metadata} {base : DeclBase} {members : Members}

theorem buildComponent_yields :
    Yields (buildComponent resources u m base members) fun d => d.toDeclBase = base := by
  unfold buildComponent
  extract_lets
  refine Yields.bind .any fun inputs _ => Yields.bind .any fun outputs _ => ?_
  split
  refine Yields.bind .any fun found _ => ?_
  split
  extract_lets withUrls
  have styled (urls : List String) : Yields (withUrls urls) fun d => d.toDeclBase = base := by
    unfold withUrls
    extract_lets found withNodes
    have parsed (nodes : List Template.Node × Option Finding) :
        Yields (withNodes nodes) fun d => d.toDeclBase = base :=
      .ok rfl
    split
    · exact Yields.bind .any fun nodes _ => parsed nodes
    · split <;> exact Yields.bind .any fun nodes _ => parsed nodes
  split
  · exact Yields.bind .any fun urls _ => styled urls
  · exact Yields.bind .any fun _ _ => Yields.bind .any fun urls _ => styled urls

theorem buildPipe_yields : Yields (buildPipe u m base) fun d => d.toDeclBase = base := by
  unfold buildPipe
  extract_lets refuse pipeName pure rest
  have built : Yields (rest ()) fun d => d.toDeclBase = base := by
    unfold rest
    split
    · exact .error _
    · exact .ok rfl
  split
  · exact Yields.bind .any fun _ _ => built
  · exact built

theorem buildDirective_yields {text : String} :
    Yields (buildDirective m base members text) fun d => d.toDeclBase = base := by
  unfold buildDirective
  extract_lets
  split
  exact Yields.bind .any fun _ _ => Yields.bind .any fun _ _ => .ok rfl

theorem buildModule_yields {s : TypeScript.Source} {root : TypeScript.Node} :
    Yields (buildModule m base s root) fun d => d.toDeclBase = base := by
  have routes (arrays : List (String × TypeScript.Node)) (d : ModuleDecl) (entry : Metadata) :
      (addRoutes s arrays d entry).toDeclBase = d.toDeclBase := by
    unfold addRoutes
    repeat' split
    all_goals rfl
  refine Yields.bind .any fun entries _ => .ok ?_
  refine List.foldlRecOn (motive := fun d : ModuleDecl => d.toDeclBase = base) entries _ rfl ?_
  exact fun d same entry _ => (routes _ d entry).trans same

/-- The imports of a source file. -/
def sourceImports (text : String) : List ImportDecl :=
  importsOf (TypeScript.Source.ofString text) (TypeScript.parse text false)

/-- A declaration stands under the path of its unit and is of its kind; a class comes with the imports of
its file. -/
theorem read_yields (resources : Resources) (u : SourceUnit) :
    Yields (read resources u) fun d => d.base.sourcePath = u.path ∧ u.kind = some d.kind ∧
      (d.kind ≠ .routes → d.base.sourceImports = sourceImports u.text) := by
  have routes (s : TypeScript.Source) (root : TypeScript.Node) :
      Yields (readRoutes u s root) fun d => d.sourcePath = u.path := by
    unfold readRoutes
    split
    · exact .error _
    · exact .ok rfl
  unfold read
  extract_lets
  split
  · exact .error _
  · rename_i kind given
    have table (d : RouteConfigDecl) : (Declaration.routes d).kind ≠ .routes →
        (Declaration.routes d).base.sourceImports = sourceImports u.text :=
      fun other => absurd rfl other
    split
    · rename_i isRoutes
      refine Yields.bind (routes _ _) fun d path => .ok ⟨path, ?_, table d⟩
      rw [given, eq_of_beq isRoutes]
      rfl
    · split
      · exact .error _
      · extract_lets expected members base
        have place : base.sourcePath = u.path := rfl
        have imports : base.sourceImports = sourceImports u.text := rfl
        split
        · exact .error _
        · refine Yields.bind .any fun m _ => ?_
          split
          · exact buildComponent_yields.bind fun d same =>
              .ok ⟨(congrArg _ same).trans place, given, fun _ => (congrArg _ same).trans imports⟩
          · exact .ok ⟨place, given, fun _ => imports⟩
          · exact buildPipe_yields.bind fun d same =>
              .ok ⟨(congrArg _ same).trans place, given, fun _ => (congrArg _ same).trans imports⟩
          · exact buildDirective_yields.mapError.bind fun d same =>
              .ok ⟨(congrArg _ same).trans place, given, fun _ => (congrArg _ same).trans imports⟩
          · exact buildModule_yields.mapError.bind fun d same =>
              .ok ⟨(congrArg _ same).trans place, given, fun _ => (congrArg _ same).trans imports⟩
          · exact (routes _ _).bind fun d path => .ok ⟨path, given, table d⟩

end Declaration

/-- Every classified unit stands under the path of its file and has its text. -/
theorem Declaration.classify_yields (path text : String) :
    Yields (classify path text) fun us => ∀ u ∈ us, u.path = path ∧ u.text = text := by
  unfold classify
  extract_lets s root units
  split
  · refine .ok fun u hu => ?_
    obtain ⟨c, _, hc⟩ := List.mem_filterMap.mp hu
    obtain ⟨kind, _, rfl⟩ := Option.map_eq_some_iff.mp hc
    exact ⟨rfl, rfl⟩
  · split
    · exact .ok (by simp)
    · exact .error _

/-! ### Files -/

/-- The item stands under the path. -/
def WorkItem.At (path : String) : WorkItem → Prop
  | .declaration d => d.base.sourcePath = path
  | .stub m => m.sourcePath = path
  | .types m => m.sourcePath = path

namespace Work

variable {resources : Sources} {path : String}

/-- The file and all its items stand under the path. -/
structure At (place : String) (w : Work) : Prop where
  path : w.path = place
  items : ∀ item ∈ w.items, item.At place

theorem At.addItem {w : Work} (h : w.At path) (item : WorkItem) (here : item.At path)
    (diagnostics : List Diagnostic) :
    Work.At path { w with diagnostics, items := w.items ++ [item] } := by
  refine ⟨h.path, fun i hi => ?_⟩
  rcases List.mem_append.mp hi with old | new
  · exact h.items i old
  · rw [List.mem_singleton.mp new]
    exact here

/-- What has been read, whether reading ended or broke off. -/
def readSoFar : Except (Fault × Work) Work → Work
  | .ok w => w
  | .error (_, w) => w

theorem readUnits_at (resources : Sources) (us : List SourceUnit) :
    ∀ {w : Work}, w.At path → (∀ u ∈ us, u.path = path) →
      (readSoFar (readUnits resources w us)).At path := by
  induction us with
  | nil => exact fun h _ => h
  | cons u us ih =>
      intro w h places
      have place := places u List.mem_cons_self
      have later (v : SourceUnit) (hv : v ∈ us) : v.path = path :=
        places v (List.mem_cons_of_mem u hv)
      rw [readUnits]
      cases read : Declaration.read resources u with
      | ok d =>
          have declared := (Declaration.read_yields resources u d read).1.trans place
          exact ih (h.addItem (.declaration d) declared w.diagnostics) later
      | error failure =>
          cases failure with
          | finding f => exact ih (h.addItem (unitStub u f.message) place _) later
          | fault f => exact h

theorem readFile_classified {text : String} {us : List SourceUnit}
    (classified : Declaration.classify path text = .ok us) :
    readFile resources { path, text } = readUnits resources { path, text } us := by
  unfold readFile
  split
  · rename_i us' same
    rw [classified] at same
    cases same
    rfl
  · rename_i refused
    rw [classified] at refused
    cases refused

/-- A file that declares nothing readable is read without breaking off, and that is noted. -/
theorem readFile_refused {text : String} {f : Finding}
    (refused : Declaration.classify path text = .error f) :
    ∃ w, readFile resources { path, text } = .ok w ∧ .ofFinding f path ∈ w.diagnostics := by
  have noted : Diagnostic.ofFinding f path ∈ [] ++ [Diagnostic.ofFinding f path] :=
    List.mem_singleton.mpr rfl
  unfold readFile
  split
  · rename_i classified
    rw [refused] at classified
    cases classified
  · rename_i f' same
    rw [refused] at same
    cases same
    dsimp only
    split
    · split
      · exact ⟨_, rfl, noted⟩
      · exact ⟨_, rfl, noted⟩
    · exact ⟨_, rfl, noted⟩

theorem readFile_at (resources : Sources) (path text : String) :
    (readSoFar (readFile resources { path, text })).At path := by
  have start : Work.At path { path, text } := ⟨rfl, fun _ h => by cases h⟩
  unfold readFile
  split
  · rename_i us classified
    exact readUnits_at resources us start fun u hu => (Declaration.classify_yields path text us classified u hu).1
  · extract_lets noted
    have single {item : WorkItem} (here : item.At path) :
        Work.At path { noted with items := [item] } := by
      refine ⟨rfl, fun i hi => ?_⟩
      rw [List.mem_singleton.mp hi]
      exact here
    split
    · split
      · exact single rfl
      · exact ⟨rfl, start.items⟩
    · exact single rfl

theorem prepare_some (resources : Sources) (path text : String) :
    prepare resources path (some text) =
      match readFile resources { path, text } with
      | .ok w => w
      | .error (f, w) =>
          { w with
            diagnostics := w.diagnostics ++
              [unitFailure path s!"Unexpected failure while parsing: {f.message}"]
            items := [fileStub path text s!"Parsing failed: {f.message}"] } := by
  unfold prepare
  rfl

/-- Reading a file yields items under its path. -/
theorem prepare_at (resources : Sources) (path : String) (text : Option String) :
    (prepare resources path text).At path := by
  cases text with
  | none => exact ⟨rfl, fun _ h => by cases h⟩
  | some text =>
      have read := readFile_at resources path text
      rw [prepare_some]
      split
      · rename_i w ended
        rw [ended] at read
        exact read
      · rename_i f w broke
        rw [broke] at read
        refine ⟨read.path, fun i hi => ?_⟩
        rw [List.mem_singleton.mp hi]
        rfl

/-- What is declared has been read from a unit. -/
theorem readUnits_reads {d : Declaration} (us : List SourceUnit) :
    ∀ {w : Work}, .declaration d ∈ (readSoFar (readUnits resources w us)).items →
      .declaration d ∈ w.items ∨ ∃ u ∈ us, Declaration.read resources u = .ok d := by
  induction us with
  | nil => exact fun mem => .inl mem
  | cons u us ih =>
      intro w mem
      have later (here : ∃ v ∈ us, Declaration.read resources v = .ok d) :
          .declaration d ∈ w.items ∨ ∃ v ∈ u :: us, Declaration.read resources v = .ok d :=
        .inr (here.imp fun v h => ⟨List.mem_cons_of_mem u h.1, h.2⟩)
      rw [readUnits] at mem
      cases read : Declaration.read resources u with
      | ok d' =>
          rw [read] at mem
          rcases ih mem with before | here
          · rcases List.mem_append.mp before with old | new
            · exact .inl old
            · cases List.mem_singleton.mp new
              exact .inr ⟨u, List.mem_cons_self, read⟩
          · exact later here
      | error failure =>
          rw [read] at mem
          cases failure with
          | finding f =>
              rcases ih mem with before | here
              · rcases List.mem_append.mp before with old | new
                · exact .inl old
                · cases List.mem_singleton.mp new
              · exact later here
          | fault f => exact .inl mem

/-- What a file declares has been read from its text. -/
theorem prepare_reads {text : Option String} {d : Declaration}
    (mem : .declaration d ∈ (prepare resources path text).items) :
    ∃ u, Declaration.read resources u = .ok d ∧ u.path = path ∧ text = some u.text := by
  cases text with
  | none => cases mem
  | some text =>
      have inside (read : .declaration d ∈ (readSoFar (readFile resources { path, text })).items) :
          ∃ u, Declaration.read resources u = .ok d ∧ u.path = path ∧ some text = some u.text := by
        cases classified : Declaration.classify path text with
        | ok us =>
            rw [readFile_classified classified] at read
            rcases readUnits_reads us read with old | ⟨u, hu, read⟩
            · cases old
            · obtain ⟨here, same⟩ := Declaration.classify_yields path text us classified u hu
              exact ⟨u, read, here, congrArg some same.symm⟩
        | error f =>
            unfold readFile at read
            simp only [classified] at read
            split at read
            · split at read
              · cases List.mem_singleton.mp read
              · cases read
            · cases List.mem_singleton.mp read
      rw [prepare_some] at mem
      split at mem
      · rename_i w ended
        rw [ended] at inside
        exact inside mem
      · cases List.mem_singleton.mp mem

theorem readUnits_text (resources : Sources) (us : List SourceUnit) :
    ∀ w : Work, (readSoFar (readUnits resources w us)).text = w.text := by
  induction us with
  | nil => exact fun w => rfl
  | cons u us ih =>
      intro w
      rw [readUnits]
      split
      · exact ih _
      · exact ih _
      · rfl

theorem readFile_text (resources : Sources) (path text : String) :
    (readSoFar (readFile resources { path, text })).text = text := by
  unfold readFile
  split
  · exact readUnits_text resources _ _
  · dsimp only
    repeat' split
    all_goals rfl

/-- A file that can be read is kept with its text. -/
theorem prepare_text (resources : Sources) (path text : String) : (prepare resources path (some text)).text = text := by
  have read := readFile_text resources path text
  rw [prepare_some]
  split
  · rename_i w ended
    rw [ended] at read
    exact read
  · rename_i f w broke
    rw [broke] at read
    exact read

/-! ### What goes wrong -/

/-- Something goes wrong while a file is read, with what is noted about it: the file cannot be read,
it declares nothing, one of its units is refused, or reading one of them breaks off. -/
inductive ReadFails (resources : Sources) (path : String) : Option String → Diagnostic → Prop
  | unreadable : ReadFails resources path none (unitFailure path "Source file could not be read")
  | unclassified {text : String} {f : Finding} (refused : Declaration.classify path text = .error f) :
      ReadFails resources path (some text) (.ofFinding f path)
  | refused {text : String} {before after : List SourceUnit} {u : SourceUnit} {f : Finding}
      (classified : Declaration.classify path text = .ok (before ++ u :: after))
      (earlier : ∀ v ∈ before, ∀ f, Declaration.read resources v ≠ .error (.fault f))
      (refused : Declaration.read resources u = .error (.finding f)) :
      ReadFails resources path (some text) (.ofFinding f path)
  | faulted {text : String} {before after : List SourceUnit} {u : SourceUnit} {f : Fault}
      (classified : Declaration.classify path text = .ok (before ++ u :: after))
      (earlier : ∀ v ∈ before, ∀ f, Declaration.read resources v ≠ .error (.fault f))
      (broke : Declaration.read resources u = .error (.fault f)) :
      ReadFails resources path (some text)
        (unitFailure path s!"Unexpected failure while parsing: {f.message}")

/-- What has been noted stays noted. -/
theorem readUnits_keeps {diagnostic : Diagnostic} (us : List SourceUnit) :
    ∀ {w : Work}, diagnostic ∈ w.diagnostics →
      diagnostic ∈ (readSoFar (readUnits resources w us)).diagnostics := by
  induction us with
  | nil => exact fun h => h
  | cons u us ih =>
      intro w h
      rw [readUnits]
      split
      · exact ih h
      · exact ih (List.mem_append_left _ h)
      · exact h

/-- Units that do not break off are passed. -/
theorem readUnits_passes {before : List SourceUnit} (after : List SourceUnit)
    (earlier : ∀ v ∈ before, ∀ f, Declaration.read resources v ≠ .error (.fault f)) (w : Work) :
    ∃ w', w'.path = w.path ∧
      readUnits resources w (before ++ after) = readUnits resources w' after := by
  induction before generalizing w with
  | nil => exact ⟨w, rfl, rfl⟩
  | cons v before ih =>
      have later := fun u hu => earlier u (List.mem_cons_of_mem v hu)
      rw [List.cons_append, readUnits]
      split
      · rename_i d _
        exact ih later { w with items := w.items ++ [.declaration d] }
      · rename_i f _
        exact ih later { w with
          diagnostics := w.diagnostics ++ [.ofFinding f w.path]
          items := w.items ++ [unitStub v f.message] }
      · rename_i broke
        exact absurd broke (earlier v List.mem_cons_self _)

/-- Whatever goes wrong while a file is read is noted for it. -/
theorem prepare_notes {text : Option String} {diagnostic : Diagnostic}
    (fails : ReadFails resources path text diagnostic) :
    diagnostic ∈ (prepare resources path text).diagnostics := by
  have kept (text : String)
      (h : diagnostic ∈ (readSoFar (readFile resources { path, text })).diagnostics) :
      diagnostic ∈ (prepare resources path (some text)).diagnostics := by
    rw [prepare_some]
    split
    · rename_i w ended
      rw [ended] at h
      exact h
    · rename_i f w broke
      rw [broke] at h
      exact List.mem_append_left _ h
  cases fails with
  | unreadable => exact List.mem_singleton.mpr rfl
  | @unclassified text f refused =>
      obtain ⟨w, read, noted⟩ := @readFile_refused resources path text f refused
      refine kept text ?_
      rw [read]
      exact noted
  | @refused text before after u f classified earlier refused =>
      obtain ⟨w, place, same⟩ := readUnits_passes (u :: after) earlier { path, text }
      refine kept text ?_
      rw [readFile_classified classified, same, readUnits, refused]
      refine readUnits_keeps after (List.mem_append_right _ ?_)
      rw [place]
      exact List.mem_singleton.mpr rfl
  | @faulted text before after u f classified earlier broke =>
      obtain ⟨w, place, same⟩ := readUnits_passes (u :: after) earlier { path, text }
      rw [prepare_some, readFile_classified classified, same, readUnits, broke]
      exact List.mem_append_right _ (List.mem_singleton.mpr rfl)

/-! ### All files -/

/-- The files that are no source units. -/
def resourcesOf (sources : Sources) : Sources :=
  sources.filter fun entry => !isSourceUnit entry.1

theorem ofSources_eq (sources : Sources) :
    ofSources sources =
      ((sources.partition fun entry => isSourceUnit entry.1).1.mergeSort fun a b => a.1 ≤ b.1).map
        fun entry => prepare (sources.partition fun entry => isSourceUnit entry.1).2 entry.1 entry.2 :=
  rfl

/-- The units of a run are its source files, each read against the resources. -/
theorem mem_ofSources {sources : Sources} {w : Work} :
    w ∈ ofSources sources ↔ ∃ path text, (path, text) ∈ sources ∧ isSourceUnit path = true ∧
      w = prepare (resourcesOf sources) path text := by
  have split : (sources.partition fun entry => isSourceUnit entry.1) =
      (sources.filter fun entry => isSourceUnit entry.1, resourcesOf sources) :=
    List.partition_eq_filter_filter
  rw [ofSources_eq, split]
  simp only [List.mem_map, List.mem_mergeSort, List.mem_filter]
  constructor
  · rintro ⟨⟨path, text⟩, ⟨mem, unit⟩, rfl⟩
    exact ⟨path, text, mem, unit, rfl⟩
  · rintro ⟨path, text, mem, unit, rfl⟩
    exact ⟨(path, text), ⟨mem, unit⟩, rfl⟩

theorem ofSources_at {sources : Sources} {w : Work} (h : w ∈ ofSources sources) : w.At w.path := by
  obtain ⟨path, text, _, _, rfl⟩ := mem_ofSources.mp h
  have placed := prepare_at (resourcesOf sources) path text
  rw [placed.path]
  exact placed

/-- What a unit of a run declares has been read from its text. -/
theorem ofSources_reads {sources : Sources} {w : Work} (h : w ∈ ofSources sources) {d : Declaration}
    (mem : .declaration d ∈ w.items) :
    ∃ u, Declaration.read (resourcesOf sources) u = .ok d ∧ u.path = w.path ∧ u.text = w.text := by
  obtain ⟨path, text, _, _, rfl⟩ := mem_ofSources.mp h
  obtain ⟨u, read, here, rfl⟩ := prepare_reads mem
  exact ⟨u, read, here.trans (prepare_at _ path _).path.symm, (prepare_text _ path u.text).symm⟩

/-- Source units that are given in order are read in that order. -/
theorem ofSources_sorted {sources : Sources} (units : ∀ entry ∈ sources, isSourceUnit entry.1 = true)
    (sorted : sources.Pairwise fun a b => a.1 ≤ b.1) :
    ofSources sources = sources.map fun entry => prepare [] entry.1 entry.2 := by
  have split : (sources.partition fun entry => isSourceUnit entry.1) = (sources, []) := by
    rw [List.partition_eq_filter_filter, List.filter_eq_self.mpr units, List.filter_eq_nil_iff.mpr]
    intro entry mem
    simp [units entry mem]
  rw [ofSources_eq, split]
  dsimp only
  rw [List.mergeSort_of_pairwise (by simpa using sorted)]

theorem ofSources_single {path : String} {text : Option String} (unit : isSourceUnit path = true) :
    ofSources [(path, text)] = [prepare [] path text] :=
  ofSources_sorted (by simpa using unit) (List.pairwise_singleton _ _)

end Work

theorem isSourceUnit_iff {path : String} :
    isSourceUnit path = true ↔ ".ts".toList <:+ path.toList := by
  rw [isSourceUnit, String.endsWith_eq_endsWith_toSlice, String.Slice.endsWith_string_iff,
    String.copy_toSlice]

end ReactMigration
