import ReactMigration.Proofs.ParsedFiles
import ReactMigration.Proofs.Runs

/-!
What goes wrong in a unit stays in that unit, with one exception.

A stub is made from the class that its name leads to, and that class may be of another kind: then no
stub is made, and the run breaks off.  It happens exactly to directives and pipes that cannot be
converted and share their name with a class of another kind.
-/

namespace ReactMigration

variable {index : SymbolIndex} {order : NameOrder} {ds : List Declaration}

/-! ### Stubs that cannot be made -/

/-- A directive or pipe of the name would be looked up, and the name leads to a class of another
kind. -/
def Clashes (index : SymbolIndex) (kind : Option UnitKind) (name : String) : Prop :=
  ∃ k s, kind = some k ∧ (k = .directive ∨ k = .pipe) ∧ index.lookup name = some s ∧ s.kind ≠ k

theorem asDirective_ok_iff {d : Declaration} : (∃ x, d.asDirective = .ok x) ↔ d.kind = .directive := by
  cases d <;> simp [Declaration.asDirective, Declaration.kind]

theorem stub_fails_iff (sound : SymbolIndex.Sound ds index) (m : StubModel) :
    (∃ f, stub index m = .error f) ↔ Clashes index m.unitKind m.name := by
  constructor
  · rintro ⟨f, h⟩
    unfold stub at h
    split at h
    · cases h
    · rename_i s unitKind found
      have declared := sound.kind_eq (sound.registered_of_lookup found)
      refine ⟨.directive, s, unitKind, .inl rfl, found, fun same => ?_⟩
      obtain ⟨d, is⟩ := asDirective_ok_iff.mpr (declared.symm.trans same)
      rw [is] at h
      cases h
    · cases h
    · rename_i s unitKind found
      have declared := sound.kind_eq (sound.registered_of_lookup found)
      split at h
      · cases h
      · rename_i other
        refine ⟨.pipe, s, unitKind, .inr rfl, found, fun same => ?_⟩
        rw [declared] at same
        cases d : s.declaration with
        | pipe d' => exact other d' d
        | _ => simp [d, Declaration.kind] at same
    · cases h
    · cases h
  · rintro ⟨kind, s, unitKind, kinds, found, other⟩
    rw [sound.kind_eq (sound.registered_of_lookup found)] at other
    rw [stub, unitKind, found]
    rcases kinds with rfl | rfl
    · cases is : s.declaration.asDirective with
      | ok d => exact absurd (asDirective_ok_iff.mp ⟨d, is⟩) other
      | error f => exact ⟨f, by simp [is, bind, Except.bind]⟩
    · dsimp only
      split
      · rename_i is
        exact absurd (by rw [is]; rfl) other
      · exact ⟨_, rfl⟩

/-! ### Items that stop a run -/

namespace WorkItem

/-- Converting the item breaks off. -/
def BreaksOff (index : SymbolIndex) (w : Work) (item : WorkItem) (order : NameOrder := .written) : Prop :=
  ∃ f sink, (item.artifacts index order).run.run { unit := w.path } = (.error f, sink)

/-- The item breaks off and cannot be replaced by a stub either. -/
def Stops (index : SymbolIndex) (w : Work) (item : WorkItem) (order : NameOrder := .written) : Prop :=
  item.BreaksOff index w order ∧ Clashes index item.kind? item.name

theorem modules_fail_iff (sound : SymbolIndex.Sound ds index) (w : Work) (item : WorkItem) :
    (∃ f, item.modules index w order = .error f) ↔ item.Stops index w order := by
  unfold modules Stops BreaksOff
  rcases (item.artifacts index order).run.run { unit := w.path } with ⟨result, sink⟩
  cases result with
  | ok artifacts =>
      constructor
      · rintro ⟨f, h⟩
        cases h
      · rintro ⟨⟨f, sink', h⟩, _⟩
        cases h
  | error f =>
      have fails := stub_fails_iff sound (item.failureStub w s!"Conversion failed: {f.message}")
      dsimp only
      constructor
      · rintro ⟨f', h⟩
        refine ⟨⟨f, sink, rfl⟩, fails.mp ?_⟩
        cases made : ReactMigration.stub index
            (item.failureStub w s!"Conversion failed: {f.message}") with
        | error f' => exact ⟨f', rfl⟩
        | ok a =>
            rw [made] at h
            cases h
      · rintro ⟨_, clash⟩
        obtain ⟨f', failed⟩ := fails.mpr clash
        exact ⟨f', by rw [failed]; rfl⟩

theorem convertItem_fails_iff (sound : SymbolIndex.Sound ds index) (settings : RunSettings) (w : Work)
    (item : WorkItem) :
    (∃ f, convertItem settings index w item = .error f) ↔ item.Stops index w settings.order := by
  rw [← modules_fail_iff sound, convertItem_eq]
  cases item.modules index w settings.order with
  | error f => simp [Except.map]
  | ok r => simp [Except.map]

end WorkItem

/-- The units of a run are converted unless one of their items stops it. -/
theorem convertAll_ok_iff {works : List Work} (sound : SymbolIndex.Sound ds index)
    (settings : RunSettings) :
    (∃ entries, convertAll settings index works = .ok entries) ↔
      ∀ w ∈ works, ∀ item ∈ w.items, ¬ item.Stops index w settings.order := by
  constructor
  · rintro ⟨entries, converted⟩ w hw item hi stops
    obtain ⟨f, failed⟩ := (WorkItem.convertItem_fails_iff sound settings w item).mpr stops
    obtain ⟨_, _, _, o, _, made⟩ := convertAll_item converted hw hi
    rw [failed] at made
    cases made
  · intro goes
    refine convertAll_ok fun w hw item hi => ?_
    cases made : convertItem settings index w item with
    | ok o => exact ⟨o, rfl⟩
    | error f =>
        exact absurd ((WorkItem.convertItem_fails_iff sound _ w item).mp ⟨f, made⟩) (goes w hw item hi)

/-! ### What is noted -/

/-- Something goes wrong in a source file, with what is noted about it: while it is read, while one
of its items is converted, or while one of its modules is written. -/
inductive UnitFails (settings : RunSettings) (resources : Sources) (index : SymbolIndex) (path : String)
    (text : Option String) : Diagnostic → Prop
  | reading {diagnostic : Diagnostic} (fails : Work.ReadFails resources path text diagnostic) :
      UnitFails settings resources index path text diagnostic
  | converting {item : WorkItem} {f : Fault} {sink : Sink}
      (mem : item ∈ (Work.prepare resources path text).items)
      (broke : (item.artifacts index settings.order).run.run { unit := path } = (.error f, sink)) :
      UnitFails settings resources index path text
        (Work.unitFailure path s!"Unexpected failure while converting {item.name}: {f.message}")
  | writing {item : WorkItem} {as : List Artifact} {sink : Sink} {a : Artifact} {message : String}
      (mem : item ∈ (Work.prepare resources path text).items)
      (made : item.modules index (Work.prepare resources path text) settings.order = .ok (as, sink)) (ha : a ∈ as)
      (refused : filesOf settings path a = .error message) :
      UnitFails settings resources index path text
        (Work.unitFailure path s!"Failed to generate {a.name}: {message}")

theorem convertItem_notes (sound : SymbolIndex.Sound ds index) {settings : RunSettings} {w : Work}
    {item : WorkItem} {o : UnitOutput} (converted : convertItem settings index w item = .ok o)
    {f : Fault} {sink : Sink}
    (broke : (item.artifacts index settings.order).run.run { unit := w.path } = (.error f, sink)) :
    Work.unitFailure w.path s!"Unexpected failure while converting {item.name}: {f.message}" ∈
      o.diagnostics := by
  have unit : sink.unit = w.path := by
    have kept := (WorkItem.artifacts_ensures sound item settings.order { unit := w.path }).1.unit
    rwa [broke] at kept
  rw [WorkItem.convertItem_eq, WorkItem.modules, broke] at converted
  dsimp only at converted
  cases made : stub index (item.failureStub w s!"Conversion failed: {f.message}") with
  | error f' =>
      rw [made] at converted
      cases converted
  | ok a =>
      rw [made] at converted
      cases converted
      refine filesOfAll_keeps _ _ (List.mem_append_right _ (List.mem_singleton.mpr ?_))
      rw [Work.unitFailure, unit]

/-- Everything that goes wrong in a file is in the report of a run that converts all items. -/
theorem mergeOutputs_notes {sources : Sources} {settings : RunSettings}
    {entries : List (Work × List UnitOutput)}
    (converted : convertAll settings (Work.index (Work.ofSources sources)) (Work.ofSources sources) =
      .ok entries) {path : String} {text : Option String} (mem : (path, text) ∈ sources)
    (isUnit : isSourceUnit path = true) {diagnostic : Diagnostic}
    (fails : UnitFails settings (Work.resourcesOf sources) (Work.index (Work.ofSources sources)) path text
      diagnostic) : diagnostic ∈ (mergeOutputs entries).2.diagnostics := by
  have sound := Work.index_sound (Work.ofSources sources)
  have hw : Work.prepare (Work.resourcesOf sources) path text ∈ Work.ofSources sources :=
    Work.mem_ofSources.mpr ⟨path, text, mem, isUnit, rfl⟩
  have place := (Work.prepare_at (Work.resourcesOf sources) path text).path
  cases fails with
  | reading fails =>
      obtain ⟨entry, he, made⟩ := mem_right_of_forall₂ (mapM_eq_ok converted) hw
      obtain ⟨outputs, _, made⟩ := ok_of_bind made
      cases made
      exact mergeOutputs_notes_work he (Work.prepare_notes fails)
  | converting hi broke =>
      obtain ⟨entry, he, _, o, ho, made⟩ := convertAll_item converted hw hi
      refine mergeOutputs_notes_output he ho ?_
      rw [← place] at broke ⊢
      exact convertItem_notes sound made broke
  | writing hi modules ha refused =>
      obtain ⟨entry, he, _, o, ho, made⟩ := convertAll_item converted hw hi
      have unit := (WorkItem.modules_offer sound ((Work.ofSources_at hw).items _ hi) modules).1
      rw [WorkItem.convertItem_eq, modules] at made
      cases made
      refine mergeOutputs_notes_output he ho ?_
      rw [place] at unit
      rw [← unit] at refused ⊢
      exact filesOfAll_notes ha refused

/-- A dry run with a valid configuration and a readable unit gives a result, with everything that went
wrong in a unit noted for that unit, unless an item stops it; then it breaks off.  No other stub
fails to be made, whatever the index. -/
theorem migrateSources_contains_failures {m : Type → Type} [Monad m] (fs : FileSystem m) (c : Config)
    (sources : Sources) (order : NameOrder) (valid : c.validate none = .ok ()) (dry : c.dryRun.isSet = true)
    {path text : String} (mem : (path, some text) ∈ sources) (isUnit : isSourceUnit path = true) :
    ((∀ w ∈ Work.ofSources sources, ∀ item ∈ w.items,
        ¬ item.Stops (Work.index (Work.ofSources sources)) w order) →
      ∃ r, migrateSources fs c sources order = pure (.ok r) ∧
        ∀ path text diagnostic, (path, text) ∈ sources → isSourceUnit path = true →
          UnitFails (c.runSettings order) (Work.resourcesOf sources) (Work.index (Work.ofSources sources)) path
            text diagnostic → diagnostic ∈ r.report.diagnostics) ∧
    ((∃ w ∈ Work.ofSources sources, ∃ item ∈ w.items,
        item.Stops (Work.index (Work.ofSources sources)) w order) →
      ∃ f, migrateSources fs c sources order = pure (.error (.fault f))) ∧
    ∀ declarations units stubModel,
      (∃ f, stub (SymbolIndex.build declarations units) stubModel = .error f) ↔
        Clashes (SymbolIndex.build declarations units) stubModel.unitKind stubModel.name := by
  have sound := Work.index_sound (Work.ofSources sources)
  refine ⟨fun goes => ?_, fun stops => ?_, fun declarations units stubModel => ?_⟩
  · obtain ⟨entries, converted⟩ := (convertAll_ok_iff sound (c.runSettings order)).mpr goes
    have result : migrate c sources order = .ok (mergeOutputs entries) := by
      rw [migrate_readable valid mem isUnit, convertWorks, converted]
      rfl
    refine ⟨{ files := (mergeOutputs entries).1, report := (mergeOutputs entries).2
              written := (mergeOutputs entries).1.map (·.1) }, ?_, ?_⟩
    · rw [migrateSources, result]
      dsimp only
      rw [if_pos dry]
    · exact fun path text diagnostic mem isUnit fails => mergeOutputs_notes converted mem isUnit fails
  · cases converted : convertAll (c.runSettings order) (Work.index (Work.ofSources sources))
        (Work.ofSources sources) with
    | ok entries =>
        obtain ⟨w, hw, item, hi, stops⟩ := stops
        exact absurd stops ((convertAll_ok_iff sound _).mp ⟨entries, converted⟩ w hw item hi)
    | error f =>
        refine ⟨f, ?_⟩
        rw [migrateSources, migrate_readable valid mem isUnit, convertWorks, converted]
        rfl
  · exact stub_fails_iff (SymbolIndex.build_sound declarations units).1 stubModel

/-- A directive that cannot be read. -/
def unreadableDirective : String × Option String :=
  ("b.ts", some "@Directive class Foo \x7b\x7d")

/-- The same directive next to a service of its name. -/
def clashingSources : Sources :=
  [("a.ts", some "@Injectable() class Foo \x7b\x7d"), unreadableDirective]

theorem ofSources_clashingSources : Work.ofSources clashingSources =
    clashingSources.map fun entry => Work.prepare [] entry.1 entry.2 :=
  Work.ofSources_sorted (by simp [clashingSources, unreadableDirective, isSourceUnit_iff])
    (by simp [clashingSources, unreadableDirective])

theorem unreadableDirective_isSourceUnit : isSourceUnit unreadableDirective.1 = true :=
  isSourceUnit_iff.mpr (by decide)

/-- The stub of the directive is looked up by its name, and finds the service. -/
theorem convertWorks_clashingSources :
    convertWorks { dryRun := .bool true : Config }.runSettings (Work.ofSources clashingSources) =
      .error (.lacksProperty "ServiceDecl" "directive_kind") := by
  have stopped : (match convertWorks { dryRun := .bool true : Config }.runSettings
      (clashingSources.map fun entry => Work.prepare [] entry.1 entry.2) with
      | .error f => f == .lacksProperty "ServiceDecl" "directive_kind"
      | .ok _ => false) = true := by
    have read : clashingSources.map (fun entry => Work.prepare [] entry.1 entry.2) = _ :=
      Work.map_prepare_chars [] "a.ts" "b.ts" String.toList_ofList String.toList_ofList
    rw [read]
    decide +kernel
  rw [ofSources_clashingSources]
  split at stopped
  · rename_i f failed
    rw [failed, eq_of_beq stopped]
  · cases stopped

/-- The whole run breaks off, although only one of its units cannot be read. -/
theorem migrateSources_clashingSources :
    migrateSources FileTree.system { dryRun := .bool true } clashingSources =
      pure (.error (.fault (.lacksProperty "ServiceDecl" "directive_kind"))) := by
  have unit : (unreadableDirective.1, unreadableDirective.2) ∈ clashingSources := by
    simp [clashingSources]
  rw [migrateSources, migrate_readable validate_dryRun unit unreadableDirective_isSourceUnit,
    convertWorks_clashingSources]
  rfl

/-- Whether a file has a single unit that is refused. -/
def refusesOnly (resources : Sources) (path text : String) : Bool :=
  match Declaration.classify path text with
  | .ok [u] =>
      match Declaration.read resources u with
      | .error (.finding _) => true
      | _ => false
  | _ => false

theorem exists_of_refusesOnly {resources : Sources} {path text : String}
    (h : refusesOnly resources path text = true) :
    ∃ u f, Declaration.classify path text = .ok [u] ∧
      Declaration.read resources u = .error (.finding f) := by
  unfold refusesOnly at h
  split at h
  · rename_i u classified
    split at h
    · rename_i f read
      exact ⟨u, f, classified, read⟩
    · cases h
  · cases h

/-- Alone, the directive is replaced by a stub with a remark; next to the service it stops the
run. -/
theorem migrateSources_contains_unreadableDirective :
    (∃ r, migrateSources FileTree.system { dryRun := .bool true } [unreadableDirective] =
      pure (.ok r) ∧ ∃ d ∈ r.report.diagnostics, d.unit = "b.ts") ∧
    ∃ f, migrateSources FileTree.system { dryRun := .bool true } clashingSources =
      pure (.error (.fault f)) := by
  have isUnit := unreadableDirective_isSourceUnit
  constructor
  · obtain ⟨goes, -, -⟩ := migrateSources_contains_failures FileTree.system { dryRun := .bool true }
      [unreadableDirective] .written validate_dryRun rfl (List.mem_singleton.mpr rfl) isUnit
    have works : Work.ofSources [unreadableDirective] =
        [Work.prepare [] unreadableDirective.1 unreadableDirective.2] :=
      Work.ofSources_single unreadableDirective_isSourceUnit
    have nothing : (Work.index (Work.ofSources [unreadableDirective])).symbols = [] := by
      rw [works]
      exact List.isEmpty_iff.mp (by decide +kernel)
    obtain ⟨r, result, notes⟩ := goes fun w _ item _ stops => by
      obtain ⟨_, k, s, _, _, found, _⟩ := stops
      rw [SymbolIndex.lookup, nothing] at found
      cases found
    refine ⟨r, result, ?_⟩
    obtain ⟨u, f, classified, read⟩ : ∃ u f,
        Declaration.classify "b.ts" "@Directive class Foo \x7b\x7d" = .ok [u] ∧
          Declaration.read (Work.resourcesOf [unreadableDirective]) u = .error (.finding f) :=
      exists_of_refusesOnly (by decide +kernel)
    have fails : Work.ReadFails (Work.resourcesOf [unreadableDirective]) "b.ts" _
        (.ofFinding f "b.ts") :=
      @Work.ReadFails.refused _ _ _ [] [] u f classified (by simp) read
    exact ⟨_, notes "b.ts" _ _ (List.mem_singleton.mpr rfl) isUnit (.reading fails), rfl⟩
  · obtain ⟨-, stops, -⟩ := migrateSources_contains_failures FileTree.system { dryRun := .bool true }
      clashingSources .written validate_dryRun rfl (List.mem_cons_of_mem _ (List.mem_singleton.mpr rfl)) isUnit
    refine stops ?_
    by_contra none
    have goes : ∀ w ∈ Work.ofSources clashingSources, ∀ item ∈ w.items,
        ¬ item.Stops (Work.index (Work.ofSources clashingSources)) w :=
      fun w hw item hi stops => none ⟨w, hw, item, hi, stops⟩
    obtain ⟨entries, converted⟩ := (convertAll_ok_iff (Work.index_sound _)
      { dryRun := .bool true : Config }.runSettings).mpr goes
    have completes : convertWorks { dryRun := .bool true : Config }.runSettings
        (Work.ofSources clashingSources) = .ok (mergeOutputs entries) := by
      rw [convertWorks, converted]
      rfl
    rw [convertWorks_clashingSources] at completes
    cases completes

end ReactMigration
