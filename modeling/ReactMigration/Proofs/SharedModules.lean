import ReactMigration.Proofs.ImportNames
import ReactMigration.Proofs.Merging
import ReactMigration.Proofs.ParsedFiles

/-!
Shared modules among the files of a run.

Every module of a unit refers to a unit, its own or that of the class it stands in for, and a shared
module to none.  Shared files with one path are therefore files of one module and have one text, so
that a merge that leaves one of them out in silence loses nothing.
-/

namespace ReactMigration

variable {α : Type}

/-! ### Modules and their units -/

section Homes

variable {index : SymbolIndex} {order : NameOrder}

theorem Noting.Returns.any {x : Noting α} : x.Returns fun _ => True :=
  fun _ _ _ _ => trivial

theorem Noting.Returns.mono {x : Noting α} {P R : α → Prop} (h : x.Returns P)
    (imp : ∀ a, P a → R a) : x.Returns R :=
  fun t a t' run => imp a (h t a t' run)

theorem Noting.Ensures.returns {x : Noting α} {P : α → Prop} (h : x.Ensures P) : x.Returns P :=
  fun t a _ run => (h t).2 a (congrArg Prod.fst run)

/-- Only the last part of work on a draft decides what it gives. -/
theorem Noting.Returns.last {β σ : Type} {x : StateT σ Noting α} {f : α → StateT σ Noting β} {s : σ}
    {P : β × σ → Prop} (h : ∀ a s', ((f a).run s').Returns P) : ((x >>= f).run s).Returns P := by
  rw [StateT.run_bind]
  exact Noting.Returns.any.bind fun r _ => h r.1 r.2

def UnitModel.sourcePath : UnitModel → String
  | .component m => m.sourcePath
  | .service m => m.sourcePath
  | .pipe m => m.sourcePath
  | .directive m => m.sourcePath
  | .module m => m.sourcePath
  | .routeTable m => m.sourcePath
  | .stub m => m.sourcePath
  | .types m => m.sourcePath

/-- The module comes from the unit at the path, or stands in for a class of another unit. -/
def Artifact.HomeIn (index : SymbolIndex) (path : String) (a : Artifact) : Prop :=
  a.ref.sourcePath = path ∨ ∃ name s, index.lookup name = some s ∧ a.ref.sourcePath = s.unit

theorem ArtifactRef.directive_sourcePath (className sourcePath : String) (kind : DirectiveKind)
    (markup : Bool) :
    (ArtifactRef.directive className sourcePath kind markup).sourcePath = sourcePath := by
  unfold ArtifactRef.directive
  split
  · rfl
  · split <;> rfl

theorem directiveStub_homeIn {m : StubModel} {name : String} {s : Symbol}
    (found : index.lookup name = some s) (d : DirectiveDecl) :
    (directiveStub m d s.unit).HomeIn index m.sourcePath := by
  unfold directiveStub
  extract_lets ref
  have there : ref.sourcePath = s.unit := ArtifactRef.directive_sourcePath _ _ _ _
  split
  · exact .inl rfl
  · split
    · exact .inr ⟨name, s, found, there⟩
    · exact .inr ⟨name, s, found, there⟩

theorem stub_homeIn {m : StubModel} {a : Artifact} (made : stub index m = .ok a) :
    a.HomeIn index m.sourcePath := by
  unfold stub at made
  split at made
  · cases made
    exact .inl rfl
  · rename_i s found
    obtain ⟨d, _, made⟩ := ok_of_bind made
    cases made
    exact directiveStub_homeIn found d
  · cases made
    exact .inl rfl
  · rename_i s _ found
    split at made
    · cases made
      exact .inr ⟨_, s, found, rfl⟩
    · cases made
  · cases made
    exact .inl rfl
  · cases made
    exact .inl rfl

theorem routeModule_sourcePath (base sourcePath : String) (routes : List RouteDecl) :
    (routeModule index base sourcePath routes).Returns fun a => a.ref.sourcePath = sourcePath :=
  Noting.Returns.any.bind fun _ _ => .pure rfl

theorem pipeFunctionModule_sourcePath (m : PipeModel) (transform : MethodModel) :
    (pipeFunctionModule index m transform).Returns fun u => u.ref.sourcePath = m.sourcePath := by
  unfold pipeFunctionModule
  extract_lets function names cell work
  have drafted : (work.run {}).Returns fun r => r.1.ref.sourcePath = m.sourcePath := by
    iterate 8 refine .last fun _ _ => ?_
    exact .pure rfl
  exact drafted.bind fun _ placed => .pure placed

theorem convertPipe_sourcePath (m : PipeModel) :
    (convertPipe index m).Returns fun as => ∀ a ∈ as, a.ref.sourcePath = m.sourcePath := by
  unfold convertPipe
  split
  · exact .throw _
  · rename_i transform _
    refine (pipeFunctionModule_sourcePath m transform).bind fun function home => ?_
    have hook : (pipeHookModule m transform).Returns fun h => h.ref.sourcePath = m.sourcePath :=
      Noting.Returns.any.bind fun _ _ => .pure rfl
    refine hook.bind fun hook there => .pure fun a mem => ?_
    rcases List.mem_cons.mp mem with rfl | mem
    · exact home
    · rw [List.mem_singleton.mp mem]
      exact there

theorem convertDirective_sourcePath (m : DirectiveModel) :
    (convertDirective index order m).Returns fun as => ∀ a ∈ as, a.ref.sourcePath = m.sourcePath := by
  have home : (directiveRef m).sourcePath = m.sourcePath := ArtifactRef.directive_sourcePath _ _ _ _
  have single {a : Artifact} (ref : a.ref = directiveRef m) :
      ∀ b ∈ [a], b.ref.sourcePath = m.sourcePath := by
    intro b mem
    rw [List.mem_singleton.mp mem, ref]
    exact home
  unfold convertDirective
  split
  · exact .pure (single rfl)
  · split
    · have wrapper : (directiveWrapper index order m).Returns fun c => c.ref = directiveRef m :=
        Noting.Returns.any.bind fun _ _ => .pure rfl
      exact wrapper.bind fun c ref => .pure (single ref)
    · have hook : (directiveHook index order m).Returns fun h => h.ref = directiveRef m :=
        Noting.Returns.any.bind fun _ _ => .pure rfl
      exact hook.bind fun h ref => .pure (single ref)

theorem convertModule_sourcePath (m : ModuleModel) :
    (convertModule index m).Returns fun as => ∀ a ∈ as, a.ref.sourcePath = m.sourcePath := by
  unfold convertModule
  extract_lets context rest
  have both (routes : List Artifact) (homes : ∀ a ∈ routes, a.ref.sourcePath = m.sourcePath) :
      (rest routes).Returns fun as => ∀ a ∈ as, a.ref.sourcePath = m.sourcePath := by
    refine .pure fun a mem => ?_
    rcases List.mem_append.mp mem with own | routed
    · unfold context at own
      split at own
      · rw [List.mem_singleton.mp own]
        rfl
      · cases own
    · exact homes a routed
  split
  · refine (routeModule_sourcePath _ _ _).bind fun a home => ?_
    simp only [pure_bind]
    exact both [a] (by simpa using home)
  · simp only [pure_bind]
    exact both [] (by simp)

theorem convertOwn_homeIn (m : UnitModel) :
    (convertOwn index order m).Returns fun as => ∀ a ∈ as, a.HomeIn index m.sourcePath := by
  cases m with
  | component m =>
      refine Noting.Returns.any.bind fun r _ => .pure fun a mem => .inl ?_
      rcases List.mem_cons.mp mem with rfl | style
      · rfl
      · split at style
        · rw [List.mem_singleton.mp style]
          rfl
        · cases style
  | service m =>
      refine Noting.Returns.any.bind fun r _ => .pure fun a mem => .inl ?_
      rw [List.mem_singleton.mp mem]
      rfl
  | pipe m => exact (convertPipe_sourcePath m).mono fun _ homes a mem => .inl (homes a mem)
  | directive m => exact (convertDirective_sourcePath m).mono fun _ homes a mem => .inl (homes a mem)
  | module m => exact (convertModule_sourcePath m).mono fun _ homes a mem => .inl (homes a mem)
  | routeTable m =>
      refine (routeModule_sourcePath _ _ _).bind fun a home => .pure fun b mem => .inl ?_
      rw [List.mem_singleton.mp mem]
      exact home
  | stub m =>
      have replaced : (Noting.lift (stub index m)).Returns fun a => a.HomeIn index m.sourcePath :=
        Noting.Ensures.returns (.lift fun a made => stub_homeIn made)
      refine replaced.bind fun a home => .pure fun b mem => ?_
      rw [List.mem_singleton.mp mem]
      exact home
  | types m =>
      refine .pure fun a mem => .inl ?_
      rw [List.mem_singleton.mp mem]
      rfl

theorem model_sourcePath {ds : List Declaration} (sound : SymbolIndex.Sound ds index)
    {item : WorkItem} {path : String} (here : item.At path) :
    (item.model index).Returns fun m => m.sourcePath = path := by
  cases item with
  | declaration d =>
      refine (Model.build_ensures sound d).returns.mono fun m built => ?_
      refine Eq.trans ?_ here
      cases built with
      | review _ kind name unitKind sourcePath reason => exact sourcePath
      | component of =>
          obtain ⟨_, base⟩ := of.base
          exact base.sourcePath
      | service of => exact of.sourcePath
      | pipe of pipeName => exact of.sourcePath
      | directive of => exact of.base.sourcePath
      | module name sourcePath providers => exact sourcePath
      | routes sourcePath => exact sourcePath
  | stub m => exact .pure here
  | types m => exact .pure here

/-- The modules of an item, converted or replaced, have a home, or are shared ones. -/
theorem modules_homeIn {ds : List Declaration} (sound : SymbolIndex.Sound ds index) {w : Work}
    {item : WorkItem} (here : item.At w.path) {as : List Artifact} {sink : Sink}
    (h : item.modules index w order = .ok (as, sink)) :
    ∀ a ∈ as, a.HomeIn index w.path ∨ a ∈ Support.modules := by
  rcases WorkItem.modules_cases h with run | ⟨f, noted, a, _, _, rfl, stubbed⟩
  · obtain ⟨m, noted, built, converted⟩ := Noting.ok_of_bind run
    obtain ⟨own, t, ran, ended⟩ := Noting.ok_of_bind converted
    cases ended
    intro a mem
    rcases List.mem_append.mp mem with here' | shared
    · left
      rw [← model_sourcePath sound here _ m noted built]
      exact convertOwn_homeIn m noted own _ ran a here'
    · right
      obtain ⟨t, _, found⟩ := List.mem_filterMap.mp shared
      exact List.mem_of_find?_eq_some found
  · intro b mem
    rw [List.mem_singleton.mp mem]
    exact .inl (stub_homeIn stubbed)

end Homes

/-! ### Shared modules -/

section Shared

variable {settings : RunSettings}

/-- A shared file is the file of a module without a unit, and says the same for every unit. -/
structure GeneratedFile.SharedAs (settings : RunSettings) (a : Artifact) (f : GeneratedFile) :
    Prop where
  homeless : a.ref.sourcePath = ""
  path : f.path = settings.layout.pathFor a
  text : ∃ major, settings.reactMajor = .ok major ∧
    Printing.text { reactMajor := major, importPath := settings.layout.importPath f.path }
      settings.layout.typescript a = some f.text

theorem filesOf_files {unit : String} {a : Artifact} {files : List GeneratedFile} {f : GeneratedFile}
    (made : filesOf settings unit a = .ok files) (mem : f ∈ files) :
    f.unit = unit ∧ (f.support = true → f.SharedAs settings a) := by
  unfold filesOf at made
  obtain ⟨major, known, made⟩ := ok_of_bind made
  extract_lets path printing at made
  split at made
  · cases made
    cases mem
  · rename_i text printed
    extract_lets file at made
    have own : file.unit = unit ∧ (file.support = true → file.SharedAs settings a) :=
      ⟨rfl, fun support => ⟨eq_of_beq support, rfl, major, known, printed⟩⟩
    split at made
    · split at made
      · cases made
        rcases List.mem_cons.mp mem with rfl | test
        · exact own
        · rw [List.mem_singleton.mp test]
          exact ⟨rfl, fun support => by cases support⟩
      · cases made
        rw [List.mem_singleton.mp mem]
        exact own
    · cases made
      rw [List.mem_singleton.mp mem]
      exact own

theorem exists_of_mem_filesOfAll {as : List Artifact} {sink : Sink} {f : GeneratedFile}
    (mem : f ∈ (filesOfAll settings sink as).1) :
    ∃ a ∈ as, ∃ files, filesOf settings sink.unit a = .ok files ∧ f ∈ files := by
  induction as generalizing sink with
  | nil => cases mem
  | cons a as ih =>
      rw [filesOfAll] at mem
      split at mem
      · rename_i files made
        rcases List.mem_append.mp mem with here | later
        · exact ⟨a, List.mem_cons_self, files, made, here⟩
        · obtain ⟨b, hb, found⟩ := ih later
          exact ⟨b, List.mem_cons_of_mem a hb, found⟩
      · obtain ⟨b, hb, found⟩ := ih mem
        exact ⟨b, List.mem_cons_of_mem a hb, found⟩

theorem convertItem_files {index : SymbolIndex} {ds : List Declaration}
    (sound : SymbolIndex.Sound ds index) {w : Work} {item : WorkItem} (here : item.At w.path)
    {o : UnitOutput} (converted : convertItem settings index w item = .ok o) {f : GeneratedFile}
    (mem : f ∈ o.files) :
    f.unit = w.path ∧ ∃ a, (a.HomeIn index w.path ∨ a ∈ Support.modules) ∧
      (f.support = true → f.SharedAs settings a) := by
  rw [WorkItem.convertItem_eq] at converted
  cases modules : item.modules index w settings.order with
  | error f =>
      rw [modules] at converted
      cases converted
  | ok r =>
      obtain ⟨as, sink⟩ := r
      rw [modules] at converted
      cases converted
      obtain ⟨a, ha, files, made, hf⟩ := exists_of_mem_filesOfAll mem
      have unit := (WorkItem.modules_offer sound here modules).1
      obtain ⟨from_, shared⟩ := filesOf_files made hf
      exact ⟨from_.trans unit, a, modules_homeIn sound here modules a ha, shared⟩

variable {sources : Sources} {entries : List (Work × List UnitOutput)}

/-- In a run every file carries the path of its unit, and shared files are those of shared modules. -/
theorem file_of_run (converted : convertAll settings (Work.index (Work.ofSources sources))
      (Work.ofSources sources) = .ok entries) {unit : String} {f : GeneratedFile}
    (mem : .file unit f ∈ MergeEvent.all entries) :
    f.unit = unit ∧ (f.support = true → ∃ a ∈ Support.modules, f.SharedAs settings a) := by
  obtain ⟨entry, he, rfl, o, ho, hf⟩ := MergeEvent.file_mem_all.mp mem
  obtain ⟨hw, items⟩ := convertAll_entry converted he
  obtain ⟨item, hi, made⟩ := items o ho
  have here := (Work.ofSources_at hw).items item hi
  obtain ⟨unit, a, home, shared⟩ := convertItem_files (Work.index_sound _) here made hf
  refine ⟨unit, fun support => ?_⟩
  have as := shared support
  -- every unit of a run has a name, so that a module with a home is not a shared one
  rcases home with (own | ⟨name, s, found, other⟩) | listed
  · exact absurd (own.symm.trans as.homeless) (path_ne_empty hw)
  · exact absurd (other.symm.trans as.homeless) (unit_ne_empty found)
  · exact ⟨a, listed, as⟩

theorem Support.pathFor_nodup : ∀ l : Layout, (Support.modules.map l.pathFor).Nodup
  | ⟨true, true⟩ => by decide +kernel
  | ⟨true, false⟩ => by decide +kernel
  | ⟨false, true⟩ => by decide +kernel
  | ⟨false, false⟩ => by decide +kernel

theorem sharedAs_text {a b : Artifact} {f g : GeneratedFile} (ha : a ∈ Support.modules)
    (hb : b ∈ Support.modules) (hf : f.SharedAs settings a) (hg : g.SharedAs settings b)
    (same : f.path = g.path) : f.text = g.text := by
  have paths : settings.layout.pathFor a = settings.layout.pathFor b := by
    rw [← hf.path, ← hg.path, same]
  have one : a = b := List.inj_on_of_nodup_map (Support.pathFor_nodup settings.layout) ha hb paths
  subst one
  obtain ⟨major, known, text⟩ := hf.text
  obtain ⟨major', known', text'⟩ := hg.text
  rw [known] at known'
  cases known'
  rw [same, text'] at text
  exact (Option.some.inj text).symm

end Shared

/-- Merging keeps of every path the first file that claims it, and reports each later one once, under
its own unit, unless it and the first are shared modules; then both have one text.  Everything else
in the report is what the units noted, in order. -/
theorem mergeOutputs_accounts (entries : List (Work × List UnitOutput)) :
    (∀ path, (mergeOutputs entries).1.get? path =
      (MergeEvent.producer? (MergeEvent.all entries) path).map (·.text)) ∧
    (mergeOutputs entries).2.diagnostics = MergeEvent.report (MergeEvent.all entries) ∧
    ∀ settings sources, convertAll settings (Work.index (Work.ofSources sources))
        (Work.ofSources sources) = .ok entries →
      (∀ unit f, .file unit f ∈ MergeEvent.all entries → f.unit = unit) ∧
      ∀ f ∈ MergeEvent.files (MergeEvent.all entries),
        ∀ g ∈ MergeEvent.files (MergeEvent.all entries),
          f.support = true → g.support = true → f.path = g.path → f.text = g.text := by
  refine ⟨mergeOutputs_get? entries, mergeOutputs_report entries, ?_⟩
  intro settings sources converted
  constructor
  · intro unit f mem
    exact (file_of_run converted mem).1
  · intro f hf g hg fShared gShared same
    obtain ⟨_, hf⟩ := MergeEvent.mem_files.mp hf
    obtain ⟨_, hg⟩ := MergeEvent.mem_files.mp hg
    obtain ⟨a, ha, asA⟩ := (file_of_run converted hf).2 fShared
    obtain ⟨b, hb, asB⟩ := (file_of_run converted hg).2 gShared
    exact sharedAs_text ha hb asA asB same

/-- Two services that send requests through one shared module. -/
def requestingUnits : Sources :=
  [("a.ts", some "@Injectable() class A \x7bconstructor(h: HttpClient) \x7b\x7d\x7d"),
   ("b.ts", some "@Injectable() class B \x7bconstructor(h: HttpClient) \x7b\x7d\x7d")]

theorem mergeOutputs_accounts_requestingUnits :
    ∃ entries f g, convertAll {} (Work.index (Work.ofSources requestingUnits))
        (Work.ofSources requestingUnits) = .ok entries ∧
      .file "a.ts" f ∈ MergeEvent.all entries ∧ .file "b.ts" g ∈ MergeEvent.all entries ∧
      f.support = true ∧ g.support = true ∧ f.path = g.path ∧ f.text = g.text := by
  have works : Work.ofSources requestingUnits =
      requestingUnits.map fun entry => Work.prepare [] entry.1 entry.2 :=
    Work.ofSources_sorted (by simp [requestingUnits, isSourceUnit_iff]) (by simp [requestingUnits])
  obtain ⟨ws, same⟩ : ∃ ws, ws = requestingUnits.map fun entry => Work.prepare [] entry.1 entry.2 :=
    ⟨_, rfl⟩
  have shared : (match convertAll {} (Work.index ws) ws with
      | .ok entries => ["a.ts", "b.ts"].all fun unit => (MergeEvent.all entries).any fun
          | .file u f => u == unit && f.support && f.path == "hooks/useHttpClient.ts"
          | .remark _ => false
      | .error _ => false) = true := by
    have read : requestingUnits.map (fun entry => Work.prepare [] entry.1 entry.2) = _ :=
      Work.map_prepare_chars [] "a.ts" "b.ts" String.toList_ofList String.toList_ofList
    rw [same, read]
    decide +kernel
  rw [works, ← same]
  split at shared
  · rename_i entries converted
    have found (unit : String) (listed : unit ∈ ["a.ts", "b.ts"]) :
        ∃ f, .file unit f ∈ MergeEvent.all entries ∧ f.support = true ∧
          f.path = "hooks/useHttpClient.ts" := by
      obtain ⟨e, mem, is⟩ := List.any_eq_true.mp (List.all_eq_true.mp shared unit listed)
      cases e with
      | remark d => cases is
      | file u f =>
          simp only [Bool.and_eq_true, beq_iff_eq] at is
          obtain ⟨⟨rfl, support⟩, path⟩ := is
          exact ⟨f, mem, support, path⟩
    obtain ⟨f, hf, fShared, fPath⟩ := found "a.ts" (by simp)
    obtain ⟨g, hg, gShared, gPath⟩ := found "b.ts" (by simp)
    have fMem := MergeEvent.mem_files.mpr ⟨_, hf⟩
    have gMem := MergeEvent.mem_files.mpr ⟨_, hg⟩
    have texts := ((mergeOutputs_accounts entries).2.2 {} requestingUnits
      (by rw [works, ← same, converted])).2 f fMem g gMem fShared gShared (fPath.trans gPath.symm)
    exact ⟨entries, f, g, converted, hf, hg, fShared, gShared, fPath.trans gPath.symm, texts⟩
  · cases shared

end ReactMigration
