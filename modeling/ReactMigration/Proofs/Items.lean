import ReactMigration.Proofs.Reading
import ReactMigration.Proofs.Units
import ReactMigration.Run.Output

/-!
From the items of a run to its files and its report.

An item comes to modules, its own or the stub that replaces them.  Every file of a module has its
path among the files of the run, and everything noted about an item is in the report.
-/

namespace ReactMigration

variable {α : Type} {index : SymbolIndex} {order : NameOrder} {ds : List Declaration}
  {settings : RunSettings}

/-! ### Modules of an item -/

namespace WorkItem

/-- The modules of an item, or the stub that replaces them, with what has been noted. -/
def modules (index : SymbolIndex) (w : Work) (item : WorkItem) (order : NameOrder := .written) :
    Except Fault (List Artifact × Sink) :=
  match (item.artifacts index order).run.run { unit := w.path } with
  | (.ok artifacts, sink) => .ok (artifacts, sink)
  | (.error f, sink) =>
      (ReactMigration.stub index (item.failureStub w s!"Conversion failed: {f.message}")).map fun replacement =>
        ([replacement], sink.add .error .unitFailure
          s!"Unexpected failure while converting {item.name}: {f.message}" none none)

theorem convertItem_eq (settings : RunSettings) (index : SymbolIndex) (w : Work) (item : WorkItem) :
    convertItem settings index w item = (item.modules index w settings.order).map fun (artifacts, sink) =>
      { files := (filesOfAll settings sink artifacts).1
        diagnostics := (filesOfAll settings sink artifacts).2.items } := by
  unfold convertItem modules
  rcases (item.artifacts index settings.order).run.run { unit := w.path } with ⟨result, sink⟩
  cases result with
  | ok artifacts => rfl
  | error f =>
      dsimp only
      cases ReactMigration.stub index (item.failureStub w s!"Conversion failed: {f.message}") with
      | error f => rfl
      | ok replacement => rfl

/-- What the modules of an item give and import. -/
structure Offers (index : SymbolIndex) (item : WorkItem) (as : List Artifact) : Prop where
  closed : Closed index as
  shared : CarriesShared as
  gives : ∀ d, item = .declaration d → Gives index d as
  types : ∀ m, item = .types m → ∃ a ∈ as, a.ref = .types m.sourcePath

theorem Offers.ofImportless {item : WorkItem} {as : List Artifact} (none : ∀ a ∈ as, a.imports = [])
    (gives : ∀ d, item = .declaration d → Gives index d as)
    (types : ∀ m, item = .types m → ∃ a ∈ as, a.ref = .types m.sourcePath) :
    Offers index item as where
  closed a ha spec hs := by
    rw [none a ha] at hs
    cases hs
  shared a ha spec hs := by
    rw [none a ha] at hs
    cases hs
  gives := gives
  types := types

theorem shared_of_importless {as : List Artifact} (none : ∀ a ∈ as, a.imports = []) :
    (Support.importedBy (as.flatMap (·.imports))).filterMap Support.find? = [] := by
  have empty : as.flatMap (·.imports) = [] := List.flatMap_eq_nil_iff.mpr none
  rw [empty]
  rfl

/-- Whether an item is converted or breaks off, its remarks stay with its unit. -/
theorem artifacts_ensures (sound : SymbolIndex.Sound ds index) (item : WorkItem) (order : NameOrder) :
    (item.artifacts index order).Ensures (Offers index item) := by
  cases item with
  | declaration d =>
      refine (Model.build_ensures sound d).bind fun m built => ?_
      refine (convertUnit_ensures (convertOwn_ensures sound built)).mono fun as h => ?_
      refine ⟨h.1.closed, h.2, fun d' same => ?_, fun _ same => ?_⟩
      · cases same
        exact h.1.gives
      · cases same
  | stub m =>
      have made : (convertOwn index order (.stub m)).Ensures fun as => ∀ a ∈ as, a.imports = [] := by
        refine Noting.Ensures.bind (.lift fun a made => stub_imports made) fun a none => .pure ?_
        simpa using none
      refine made.bind fun as none => .pure ?_
      rw [shared_of_importless none]
      refine .ofImportless (by simpa using none) ?_ ?_ <;> rintro _ ⟨⟩
  | types m =>
      have none : ∀ a ∈ [convertTypes m], a.imports = [] := by simp [convertTypes, Artifact.imports]
      refine .pure ?_
      rw [shared_of_importless none]
      refine .ofImportless none ?_ ?_
      · rintro _ ⟨⟩
      · rintro _ ⟨⟩
        exact ⟨convertTypes m, by simp, rfl⟩

theorem modules_cases {w : Work} {item : WorkItem} {as : List Artifact} {sink : Sink}
    (h : item.modules index w order = .ok (as, sink)) :
    (item.artifacts index order).run.run { unit := w.path } = (.ok as, sink) ∨
      ∃ f noted a, (item.artifacts index order).run.run { unit := w.path } = (.error f, noted) ∧
        noted.Continues sink ∧ as = [a] ∧
        ReactMigration.stub index (item.failureStub w s!"Conversion failed: {f.message}") = .ok a := by
  unfold modules at h
  rcases run : (item.artifacts index order).run.run { unit := w.path } with ⟨result, noted⟩
  rw [run] at h
  cases result with
  | ok artifacts =>
      cases h
      exact .inl rfl
  | error f =>
      dsimp only at h
      cases made : ReactMigration.stub index (item.failureStub w s!"Conversion failed: {f.message}") with
      | error f =>
          rw [made] at h
          cases h
      | ok a =>
          rw [made] at h
          cases h
          exact .inr ⟨f, noted, a, rfl, noted.continues_add _ _ _ _ _, rfl, made⟩

/-- What holds of the modules that a model of a declaration is converted into, of its stubs and of
shared modules holds of all that it comes to; more may be known about what is built. -/
theorem declaration_modules_of {P : Artifact → Prop} {Q : UnitModel → Prop}
    (sound : SymbolIndex.Sound ds index) {d : Declaration} (known : (Model.build index d).Ensures Q)
    (shared : ∀ a ∈ Support.modules, P a)
    (stubbed : ∀ m a, m.unitKind = some d.kind → m.reason ≠ "" →
      ReactMigration.stub index m = .ok a → P a)
    (converted : ∀ m, Model.Built index d m → Q m → (∀ s, m ≠ .stub s) →
      (convertOwn index order m).Ensures fun as => ∀ a ∈ as, P a)
    {w : Work} {as : List Artifact} {sink : Sink}
    (h : (WorkItem.declaration d).modules index w order = .ok (as, sink)) : ∀ a ∈ as, P a := by
  have ensured : ((WorkItem.declaration d).artifacts index order).Ensures fun as => ∀ a ∈ as, P a := by
    refine ((Model.build_ensures sound d).and known).bind ?_
    rintro m ⟨built, more⟩
    have own : (convertOwn index order m).Ensures fun as => ∀ a ∈ as, P a := by
      cases built with
      | review _ kind name unitKind sourcePath reason =>
          refine Noting.Ensures.bind (.lift fun a made => made) fun a made => .pure ?_
          simpa using stubbed _ a unitKind reason made
      | component of => exact converted _ (.component of) more (by simp)
      | service of => exact converted _ (.service of) more (by simp)
      | pipe of pipeName => exact converted _ (.pipe of pipeName) more (by simp)
      | directive of => exact converted _ (.directive of) more (by simp)
      | module name sourcePath providers =>
          exact converted _ (.module name sourcePath providers) more (by simp)
      | routes sourcePath => exact converted _ (.routes sourcePath) more (by simp)
    refine own.bind fun as all => .pure fun a mem => ?_
    rcases List.mem_append.mp mem with here | there
    · exact all a here
    · obtain ⟨t, _, found⟩ := List.mem_filterMap.mp there
      exact shared a (List.mem_of_find?_eq_some found)
  rcases modules_cases h with run | ⟨f, noted, a, run, _, rfl, made⟩
  · have known := ensured { unit := w.path }
    rw [run] at known
    exact known.2 _ rfl
  · have replaced := stubbed _ a rfl (by simp [failureStub, toString]) made
    simpa using replaced

theorem declaration_modules {P : Artifact → Prop} (sound : SymbolIndex.Sound ds index)
    {d : Declaration} (shared : ∀ a ∈ Support.modules, P a)
    (stubbed : ∀ m a, m.unitKind = some d.kind → m.reason ≠ "" →
      ReactMigration.stub index m = .ok a → P a)
    (converted : ∀ m, Model.Built index d m → (∀ s, m ≠ .stub s) →
      (convertOwn index order m).Ensures fun as => ∀ a ∈ as, P a)
    {w : Work} {as : List Artifact} {sink : Sink}
    (h : (WorkItem.declaration d).modules index w order = .ok (as, sink)) : ∀ a ∈ as, P a :=
  declaration_modules_of sound ((Model.build_ensures sound d).mono fun _ _ => trivial) shared stubbed
    (fun m built _ => converted m built) h

/-- All remarks about an item, converted or replaced, are about its unit. -/
theorem modules_continues (sound : SymbolIndex.Sound ds index) {w : Work} {item : WorkItem}
    {as : List Artifact} {sink : Sink} (h : item.modules index w order = .ok (as, sink)) :
    Sink.Continues { unit := w.path } sink := by
  have started := (artifacts_ensures sound item order { unit := w.path }).1
  rcases modules_cases h with run | ⟨f, noted, a, run, continues, _, _⟩
  · rw [run] at started
    exact started
  · rw [run] at started
    exact started.trans continues

/-- The modules that an item comes to, converted or replaced, offer what the index promises. -/
theorem modules_offer (sound : SymbolIndex.Sound ds index) {w : Work} {item : WorkItem}
    (here : item.At w.path) {as : List Artifact} {sink : Sink}
    (h : item.modules index w order = .ok (as, sink)) : sink.unit = w.path ∧ Offers index item as := by
  refine ⟨(modules_continues sound h).unit, ?_⟩
  rcases modules_cases h with run | ⟨f, noted, a, run, _, rfl, made⟩
  · have ensured := artifacts_ensures sound item order { unit := w.path }
    rw [run] at ensured
    exact ensured.2 _ rfl
  · refine .ofImportless ?_ ?_ ?_
    · intro b hb
      rw [List.mem_singleton.mp hb]
      exact stub_imports made
    · rintro d rfl
      exact (stub_delivers ⟨rfl, rfl, here.symm⟩ made).gives
    · rintro m rfl
      cases run

end WorkItem

def Artifact.hook? : Artifact → Option HookArtifact
  | .hook h => some h
  | .component _ | .context _ | .routes _ | .util _ | .style _ => none

/-! ### Units with one component -/

/-- The only declaration of a unit, a component, with the component that it becomes. -/
def Work.component? (w : Work) : Option (ComponentDecl × ComponentArtifact) :=
  match w.items with
  | [.declaration (.component decl)] =>
      match (WorkItem.declaration (.component decl)).modules (Work.index [w]) w with
      | .ok (.component c :: _, _) => some (decl, c)
      | _ => none
  | _ => none

/-- A unit becomes the component. -/
def Work.Becomes (w : Work) (decl : ComponentDecl) (c : ComponentArtifact) : Prop :=
  w.items = [.declaration (.component decl)] ∧ ∃ as sink,
    (WorkItem.declaration (.component decl)).modules (Work.index [w]) w = .ok (as, sink) ∧
      .component c ∈ as

theorem Work.becomes_of_component? {w : Work} {decl : ComponentDecl} {c : ComponentArtifact}
    (h : w.component? = some (decl, c)) : w.Becomes decl c := by
  unfold Work.component? at h
  split at h
  · rename_i items
    split at h
    · rename_i made
      cases h
      exact ⟨items, _, _, made, List.mem_cons_self⟩
    · cases h
  · cases h

/-! ### All items -/

theorem convertAll_item {works : List Work} {entries : List (Work × List UnitOutput)}
    (h : convertAll settings index works = .ok entries) {w : Work} (hw : w ∈ works)
    {item : WorkItem} (hi : item ∈ w.items) :
    ∃ entry ∈ entries, entry.1 = w ∧ ∃ o ∈ entry.2, convertItem settings index w item = .ok o := by
  obtain ⟨entry, mem, made⟩ := mem_right_of_forall₂ (mapM_eq_ok h) hw
  obtain ⟨outputs, converted, made⟩ := ok_of_bind made
  cases made
  obtain ⟨o, ho, eq⟩ := mem_right_of_forall₂ (mapM_eq_ok converted) hi
  exact ⟨_, mem, rfl, o, ho, eq⟩

/-- Nothing but an item that cannot be converted stops a run. -/
theorem convertAll_ok {works : List Work}
    (h : ∀ w ∈ works, ∀ item ∈ w.items, ∃ o, convertItem settings index w item = .ok o) :
    ∃ entries, convertAll settings index works = .ok entries := by
  refine mapM_ok fun w hw => ?_
  obtain ⟨outputs, converted⟩ := mapM_ok (h w hw)
  refine ⟨(w, outputs), ?_⟩
  rw [converted]
  rfl

/-! ### Files -/

/-- In typed output every module is written once the version of the view library is known. -/
theorem filesOf_typed (a : Artifact) (unit : String) (typed : settings.layout.typescript = true)
    {major : Int} (known : settings.reactMajor = .ok major) :
    ∃ files, filesOf settings unit a = .ok files ∧ ∃ f ∈ files, f.path = settings.layout.pathFor a := by
  have written (s : Printing.Settings) : Printing.text s true a ≠ none := by
    cases a with
    | util u => simp [Printing.text]
    | _ => simp [Printing.text]
  unfold filesOf
  rw [known, typed]
  dsimp only [bind, Except.bind]
  split
  · rename_i none
    exact absurd none (written _)
  · split
    · split
      · exact ⟨_, rfl, _, List.mem_cons_self, rfl⟩
      · exact ⟨_, rfl, _, List.mem_cons_self, rfl⟩
    · exact ⟨_, rfl, _, List.mem_cons_self, rfl⟩

theorem filesOfAll_keeps (as : List Artifact) :
    ∀ sink : Sink, sink.items ⊆ (filesOfAll settings sink as).2.items := by
  induction as with
  | nil => exact fun sink => List.Subset.refl _
  | cons a as ih =>
      intro sink
      rw [filesOfAll]
      split
      · exact ih sink
      · exact fun d hd => ih _ (List.mem_append_left _ hd)

theorem mem_filesOfAll {a : Artifact} {as : List Artifact} {files : List GeneratedFile}
    {f : GeneratedFile} {sink : Sink} (ha : a ∈ as) (made : filesOf settings sink.unit a = .ok files)
    (hf : f ∈ files) : f ∈ (filesOfAll settings sink as).1 := by
  induction as generalizing sink with
  | nil => cases ha
  | cons b as ih =>
      rw [filesOfAll]
      rcases List.mem_cons.mp ha with rfl | later
      · rw [made]
        exact List.mem_append_left _ hf
      · split
        · exact List.mem_append_right _ (ih later made)
        · exact ih later made

theorem filesOfAll_notes {a : Artifact} {as : List Artifact} {message : String} {sink : Sink}
    (ha : a ∈ as) (refused : filesOf settings sink.unit a = .error message) :
    Work.unitFailure sink.unit s!"Failed to generate {a.name}: {message}" ∈
      (filesOfAll settings sink as).2.items := by
  induction as generalizing sink with
  | nil => cases ha
  | cons b as ih =>
      rw [filesOfAll]
      rcases List.mem_cons.mp ha with rfl | later
      · rw [refused]
        exact filesOfAll_keeps as _ (List.mem_append_right _ (List.mem_singleton.mpr rfl))
      · split
        · exact ih later refused
        · exact ih later refused

/-! ### Merging -/

namespace Merged

/-- No path and no remark gets lost. -/
structure Extends (m m' : Merged) : Prop where
  files : ∀ path, m.files.has path → m'.files.has path
  diagnostics : m.diagnostics ⊆ m'.diagnostics

theorem Extends.refl (m : Merged) : m.Extends m :=
  ⟨fun _ h => h, List.Subset.refl _⟩

theorem Extends.trans {m m' m'' : Merged} (h : m.Extends m') (h' : m'.Extends m'') : m.Extends m'' :=
  ⟨fun path hp => h'.files path (h.files path hp), fun _ hd => h'.diagnostics (h.diagnostics hd)⟩

theorem foldl_extends {step : Merged → α → Merged} (h : ∀ (m : Merged) a, m.Extends (step m a)) (l : List α)
    (m : Merged) : m.Extends (l.foldl step m) :=
  List.foldlRecOn (motive := fun m' => m.Extends m') l step (.refl m)
    fun m' before a _ => before.trans (h m' a)

/-- Each turn leaves its trace in the end. -/
theorem foldl_extends_step {step : Merged → α → Merged} (h : ∀ (m : Merged) a, m.Extends (step m a)) {a : α} :
    ∀ {l : List α} (m : Merged), a ∈ l → ∃ m', (step m' a).Extends (l.foldl step m)
  | b :: l, m, ha => by
      rcases List.mem_cons.mp ha with rfl | later
      · exact ⟨m, foldl_extends h l _⟩
      · exact foldl_extends_step h (step m b) later

theorem addFile_extends (unit : String) (m : Merged) (f : GeneratedFile) :
    m.Extends (m.addFile unit f) := by
  unfold addFile
  split
  · refine ⟨fun path hp => ?_, List.Subset.refl _⟩
    simp only [Table.has, List.any_append, Bool.or_eq_true] at hp ⊢
    exact .inl hp
  · split
    · exact .refl m
    · exact ⟨fun _ h => h, List.subset_append_left _ _⟩

/-- A path is taken by the file or by one that was there before it. -/
theorem addFile_has (unit : String) (m : Merged) (f : GeneratedFile) :
    (m.addFile unit f).files.has f.path := by
  unfold addFile
  split
  · simp [Table.has]
  · rename_i existing found
    have taken : m.files.has f.path := by
      by_contra free
      rw [(Table.get?_eq_none_iff _ _).mpr (by simpa using free)] at found
      cases found
    split <;> exact taken

theorem addOutput_extends (unit : String) (m : Merged) (o : UnitOutput) :
    m.Extends (m.addOutput unit o) := by
  refine Extends.trans ?_ (foldl_extends (addFile_extends unit) o.files _)
  exact ⟨fun _ h => h, List.subset_append_left _ _⟩

theorem addWork_extends (m : Merged) (entry : Work × List UnitOutput) : m.Extends (m.addWork entry) := by
  refine Extends.trans ?_ (foldl_extends (addOutput_extends entry.1.path) entry.2 _)
  exact ⟨fun _ h => h, List.subset_append_left _ _⟩

end Merged

section Merge

variable {entries : List (Work × List UnitOutput)} {entry : Work × List UnitOutput} {o : UnitOutput}

theorem mergeOutputs_extends (mem : entry ∈ entries) :
    ∃ m : Merged, (m.addWork entry).Extends (entries.foldl Merged.addWork {}) :=
  Merged.foldl_extends_step Merged.addWork_extends _ mem

theorem mergeOutputs_has (mem : entry ∈ entries) (ho : o ∈ entry.2) {f : GeneratedFile}
    (hf : f ∈ o.files) : (mergeOutputs entries).1.has f.path := by
  obtain ⟨m, whole⟩ := mergeOutputs_extends mem
  obtain ⟨m', outputs⟩ := Merged.foldl_extends_step (Merged.addOutput_extends entry.1.path)
    { m with diagnostics := m.diagnostics ++ entry.1.diagnostics } ho
  obtain ⟨m'', files⟩ := Merged.foldl_extends_step (Merged.addFile_extends entry.1.path)
    { m' with diagnostics := m'.diagnostics ++ o.diagnostics } hf
  have kept := (files.trans (outputs.trans whole)).files f.path
    (Merged.addFile_has entry.1.path m'' f)
  simpa [mergeOutputs, Table.has, List.any_eq_true] using kept

theorem mergeOutputs_notes_work (mem : entry ∈ entries) :
    entry.1.diagnostics ⊆ (mergeOutputs entries).2.diagnostics := by
  obtain ⟨m, whole⟩ := mergeOutputs_extends mem
  have outputs := Merged.foldl_extends (Merged.addOutput_extends entry.1.path) entry.2
    { m with diagnostics := m.diagnostics ++ entry.1.diagnostics }
  intro d hd
  exact (outputs.trans whole).diagnostics (List.mem_append_right _ hd)

theorem mergeOutputs_notes_output (mem : entry ∈ entries) (ho : o ∈ entry.2) :
    o.diagnostics ⊆ (mergeOutputs entries).2.diagnostics := by
  obtain ⟨m, whole⟩ := mergeOutputs_extends mem
  obtain ⟨m', outputs⟩ := Merged.foldl_extends_step (Merged.addOutput_extends entry.1.path)
    { m with diagnostics := m.diagnostics ++ entry.1.diagnostics } ho
  have files := Merged.foldl_extends (Merged.addFile_extends entry.1.path) o.files
    { m' with diagnostics := m'.diagnostics ++ o.diagnostics }
  intro d hd
  exact (files.trans (outputs.trans whole)).diagnostics (List.mem_append_right _ hd)

end Merge

end ReactMigration
