import ReactMigration.Proofs.TemplateImports
import ReactMigration.Proofs.Units

/-!
What the modules of a unit import.

A model uses the modules of the classes that its template names, of pipes, and of the services that
are injected.  The modules that the model becomes start with what they carry over from the source, and
beside it and library names they import what the model uses alone.
-/

namespace ReactMigration

open Relation (ReflTransGen)

variable {α β : Type} {T : ArtifactRef → Prop} {endless : Prop} {index : SymbolIndex}
  {order : NameOrder}

/-! ### Results -/

/-- Work in two parts that gives a value has done the first part, and the second from there. -/
theorem Noting.ok_of_bind {x : Noting α} {f : α → Noting β} {t t' : Sink} {b : β}
    (run : (x >>= f).run.run t = (.ok b, t')) :
    ∃ a t₁, x.run.run t = (.ok a, t₁) ∧ (f a).run.run t₁ = (.ok b, t') := by
  simp only [ExceptT.run_bind, StateT.run_bind] at run
  rcases first : x.run.run t with ⟨_ | a, t₁⟩
  · rw [first] at run
    cases run
  · rw [first] at run
    exact ⟨a, t₁, rfl, run⟩

/-- A value that the work gives has the property. -/
def Noting.Returns (x : Noting α) (P : α → Prop) : Prop :=
  ∀ t a t', x.run.run t = (.ok a, t') → P a

namespace Noting.Returns

variable {P : α → Prop} {R : β → Prop} {x : Noting α}

theorem pure {a : α} (h : P a) : (Pure.pure a : Noting α).Returns P := by
  rintro t _ t' ⟨⟩
  exact h

theorem throw (f : Fault) : (MonadExcept.throw f : Noting α).Returns P := by
  rintro t a t' ⟨⟩

theorem bind {f : α → Noting β} (hx : x.Returns P) (hf : ∀ a, P a → (f a).Returns R) :
    (x >>= f).Returns R := by
  intro t b t' run
  obtain ⟨a, t₁, first, rest⟩ := Noting.ok_of_bind run
  exact hf a (hx t a t₁ first) t₁ b t' rest

/-- What a draft has gathered when the work on it ends. -/
theorem ofGathers {m : Converting α} (h : Gathers T endless m) (d : Draft) :
    (m.run d).Returns fun r => Gathered T d.imports r.2.imports :=
  fun t r t' run => (h d t (.ok r) t' run).1 r.1 r.2 rfl

/-- What a draft has gathered since it was started. -/
theorem ofGathersFrom {start : Imports → Imports} {m : Converting α} (h : GathersFrom start T m) (d : Draft) :
    (m.run d).Returns fun r => Gathered T (start d.imports) r.2.imports :=
  fun t r t' run => h d t r.1 r.2 t' run

end Noting.Returns

/-! ### Modules that a model uses -/

/-- The module is one of a class that is found under one of the names. -/
def NamesModule (index : SymbolIndex) (names : List String) (t : ArtifactRef) : Prop :=
  ∃ name ∈ names, ∃ s, index.lookup name = some s ∧ (t = .component s.name s.unit ∨
    ∃ d, s.declaration.asDirective = .ok d ∧
      t = .directive d.name s.unit d.directiveKind d.rendersMarkup)

/-- The classes that the template of a component and the templates it refers to name. -/
def ComponentModel.classes (m : ComponentModel) : List String :=
  templateClasses m.template ++ m.templateRefs.flatMap fun entry => nodeClasses entry.2.node

/-- The module of the service that is injected. -/
def Injected.ref (dep : Injected) : ArtifactRef :=
  .service (dep.target.getD "") (dep.targetUnit.getD "")

/-- What is injected into the class of a model. -/
def UnitModel.injected : UnitModel → List Injected
  | .component m => m.dependencies
  | .service m => m.dependencies
  | .pipe m => m.dependencies
  | .directive m => m.dependencies
  | _ => []

/-- The modules of units that a model uses. -/
inductive UnitModel.Uses (index : SymbolIndex) : UnitModel → ArtifactRef → Prop
  | named {m : ComponentModel} {t : ArtifactRef} (h : NamesModule index m.classes t) :
      Uses index (.component m) t
  | piped {m : ComponentModel} {name : String} {s : Symbol} {d : PipeDecl}
      (found : index.pipe name = some s) (declared : s.declaration = .pipe d) :
      Uses index (.component m) (.pipeFunction d.pipeName s.unit)
  | styled (m : ComponentModel) : Uses index (.component m) (.style m.name m.sourcePath)
  | injected {m : UnitModel} {dep : Injected} (mem : dep ∈ m.injected) (kind : dep.kind = .service) :
      Uses index m dep.ref
  | provided {m : ModuleModel} {dep : Injected} (mem : dep ∈ m.providers) :
      Uses index (.module m) dep.ref
  | applied (m : PipeModel) : Uses index (.pipe m) (.pipeFunction m.pipeName m.sourcePath)
  | routed {m : UnitModel} {name : String} {s : Symbol} (found : index.lookup name = some s)
      (routing : (∃ n, m = .module n) ∨ ∃ n, m = .routeTable n) :
      Uses index m (.component s.name s.unit)

/-! ### Members -/

open Converting (warn_gathers warnAt_gathers shared_gathers named_gathers defaultOf_gathers
  react_gathers router_gathers uses_gathers body_gathers expression_gathers modifyBody_gathers)

theorem reactType_gathered {name : String} (i : Imports) (h : name ∈ viewTypes := by decide) :
    Gathered T i (i.reactType name) := by
  refine .add (.library ?_)
  simp only [libraryImports, List.mem_append, List.mem_map]
  exact .inl (.inl (.inl (.inr ⟨name, h, rfl⟩)))

theorem react_gathered {names : List String} (i : Imports)
    (h : ∀ n ∈ names, n ∈ viewNames := by decide) : Gathered T i (i.react names) := by
  refine .fromPackage fun n hn => .library ?_
  simp only [libraryImports, List.mem_append, List.mem_map]
  exact .inl (.inl (.inl (.inl ⟨n, h n hn, rfl⟩)))

namespace Members

theorem value_gathers (ctx : RecastContext) (v : Option String) : Gathers T endless (value ctx v) := by
  cases v with
  | none => exact .pure _
  | some v => exact (body_gathers ctx v).bind fun _ => .pure _

theorem effect_gathers (ctx : RecastContext) (e : Effect) : Gathers T endless (effect ctx e) := by
  refine (body_gathers ctx e.body).bind fun _ => (body_gathers ctx e.cleanup).bind fun _ => ?_
  exact .pure _

theorem refDecl_gathers (ctx : RecastContext) (c : RefCell) : Gathers T endless (refDecl ctx c) := by
  unfold refDecl
  split
  · exact .pure _
  · exact (value_gathers ctx c.initial).bind fun _ => .pure _

theorem constDecl_gathers (ctx : RecastContext) (c : ConstantCell) :
    Gathers T endless (constDecl ctx c) := by
  refine (value_gathers ctx c.value).bind fun v => ?_
  cases v <;> exact .pure _

theorem convert_gathers (m : ModelBase) (ctx : RecastContext) :
    Gathers T endless (convert m ctx) := by
  unfold convert
  refine (Gathers.mapM fun c _ => (value_gathers ctx c.initial).bind fun _ => .pure _).bind
    fun state => ?_
  extract_lets rest
  have written : Gathers T endless (rest ()) := by
    refine (Gathers.mapM fun c _ => refDecl_gathers ctx c).bind fun refs => ?_
    refine (Gathers.mapM fun c _ => constDecl_gathers ctx c).bind fun constants => ?_
    refine (Gathers.mapM fun f _ => (body_gathers ctx f.body).bind fun _ => .pure _).bind
      fun functions => ?_
    refine (Gathers.mapM fun g _ => (body_gathers ctx g.body).bind fun _ => .pure _).bind
      fun derived => ?_
    refine (Gathers.mapM fun e _ => effect_gathers ctx e).bind fun effects => ?_
    extract_lets last
    have stored : Gathers T endless (last ()) := .modify fun _ => .refl
    split
    · exact (react_gathers).bind fun _ => stored
    · exact stored
  split
  · exact (react_gathers).bind fun _ => written
  · exact written

theorem listenerEffects_gathers (ctx : RecastContext) (host : Option String) (ls : List HostListener) :
    Gathers T endless (listenerEffects ctx host ls) := by
  have each (l : HostListener) : Gathers T endless (listenerEffect ctx host l) := by
    unfold listenerEffect
    split
    split
    · exact (warn_gathers _).bind fun _ => .pure _
    · exact (expression_gathers _ _ _).bind fun _ => .pure _
  exact (Gathers.mapM fun l _ => each l).bind fun _ => .pure _

theorem routerCall_gathers (use call : String) {hook : String} (h : hook ∈ routerNames := by decide) :
    Gathers T endless (routerCall use hook call) := by
  refine Gathers.get.bind fun d => ?_
  split
  · exact (router_gathers (by simpa using h)).bind fun _ => .pure _
  · exact .pure _

theorem dependencyHook_gathers (elementRefs : Table String) (provided : List String) {dep : Injected}
    (allowed : dep.kind = .service → T dep.ref) :
    Gathers T endless (dependencyHook elementRefs provided dep) := by
  unfold dependencyHook
  split
  · rename_i kind
    exact (named_gathers (allowed kind) _).bind fun _ => .pure _
  · exact .pure _
  · split
    · refine (routerCall_gathers _ _).bind fun _ => ?_
      exact (routerCall_gathers _ _).bind fun _ => .pure _
    · refine (routerCall_gathers _ _).bind fun _ => ?_
      exact (routerCall_gathers _ _).bind fun _ => .pure _
    · exact (shared_gathers (by decide)).bind fun _ => .pure _
    · refine Gathers.get.bind fun d => ?_
      dsimp only
      split <;> exact .pure _
    · split <;> exact .pure _

theorem dependencyHooks_gathers (m : ModelBase) (elementRefs : Table String) (provided : List String)
    (allowed : ∀ dep ∈ m.dependencies, dep.kind = .service → T dep.ref) :
    Gathers T endless (dependencyHooks m elementRefs provided) := by
  unfold dependencyHooks
  refine (Gathers.mapM fun dep hd =>
    dependencyHook_gathers elementRefs provided (allowed dep hd)).bind fun found => ?_
  extract_lets calls rest
  have called (extra : List String) : Gathers T endless (rest extra) := by
    refine (modifyBody_gathers _).bind fun _ => Gathers.get.bind fun d => ?_
    split
    · exact react_gathers
    · exact .pure _
  split
  · exact .bind (.pure _) fun extra => called extra
  · exact (routerCall_gathers _ _).bind fun extra => called extra

end Members

/-! ### Components -/

theorem hostRef_gathers (m : ComponentModel) (elementRefs : Table String) :
    Gathers T endless (hostRef m elementRefs) := by
  unfold hostRef
  split
  · exact .pure _
  · split
    · refine (modifyBody_gathers _).bind fun _ => ?_
      exact (react_gathers).bind fun _ => .pure _
    · exact .pure _

theorem attachHost_gathers (name host : String) (markup : Option Markup) :
    Gathers T endless (attachHost name host markup) := by
  have noRoot : Gathers T endless (attachHost.noRoot name markup) :=
    (warn_gathers _).bind fun _ => .pure _
  unfold attachHost
  extract_lets isPlain
  split
  · split
    · split
      · exact (warn_gathers _).bind fun _ => .pure _
      · exact .pure _
    · exact noRoot
  · exact noRoot

theorem draftComponent_gathers (m : ComponentModel) :
    GathersFrom (fun i => i.carry index m.sourcePath m.sourceImports) ((UnitModel.component m).Uses index)
      (draftComponent index order m) := by
  have admitted (c : String) (mem : c ∈ m.classes) :
      Admits index ((UnitModel.component m).Uses index) c := fun s found =>
    ⟨.named ⟨c, mem, s, found, .inl rfl⟩, fun d is => .named ⟨c, mem, s, found, .inr ⟨d, is, rfl⟩⟩⟩
  refine Gathers.after True ?_
  extract_lets texts props children elementRefs names env closing afterTemplate rest
  have closed (markup : Option Markup) :
      Gathers ((UnitModel.component m).Uses index) True (closing markup) := by
    refine (Members.dependencyHooks_gathers _ _ _ fun dep mem kind => .injected mem kind).bind
      fun _ => Gathers.get.bind fun d => ?_
    dsimp only
    split
    · exact (react_gathers).bind fun _ => .pure _
    · exact .pure _
  have hosted (markup : Option Markup) :
      Gathers ((UnitModel.component m).Uses index) True (afterTemplate markup) := by
    refine (hostRef_gathers m _).bind fun host => ?_
    refine (Members.listenerEffects_gathers _ _ _).bind fun listeners => ?_
    refine (modifyBody_gathers _).bind fun _ => Gathers.get.bind fun d => ?_
    extract_lets attach
    have attached : Gathers ((UnitModel.component m).Uses index) True (attach ()) := by
      unfold attach
      split
      · exact (attachHost_gathers _ _ _).bind fun markup => closed markup
      · exact .bind (.pure _) fun markup => closed markup
    split
    · exact (react_gathers).bind fun _ => attached
    · exact attached
  have drafted : Gathers ((UnitModel.component m).Uses index) True (rest ()) := by
    refine (Members.convert_gathers _ _).bind fun _ => ?_
    split
    · exact .bind (.pure _) fun markup => hosted markup
    · refine Gathers.bind ?_ fun markup => hosted markup
      refine convertTemplate_gathers (fun _ _ _ found declared => .piped found declared)
        (fun entry mem c hc => admitted c ?_) fun c hc => admitted c (List.mem_append_left _ hc)
      exact List.mem_append_right _ (List.mem_flatMap.mpr ⟨entry, mem, hc⟩)
  split
  · exact .bind (.modify fun d => reactType_gathered _) fun _ => drafted
  · exact drafted

/-! ### Directives -/

theorem draftDirective_gathers (m : DirectiveModel)
    (allowed : ∀ dep ∈ m.dependencies, dep.kind = .service → T dep.ref) :
    Gathers T endless (draftDirective order m) := by
  have bound (names : RecastContext) : Gathers T endless (hostBindingsEffect names m.hostBindings) := by
    unfold hostBindingsEffect
    split
    · exact .pure _
    · refine (Gathers.mapM fun b _ => ?_).bind fun _ => .pure _
      exact (expression_gathers _ _ _).bind fun _ => .pure _
  unfold draftDirective
  extract_lets elementRefs names
  refine (Members.convert_gathers _ _).bind fun _ => ?_
  refine (Members.listenerEffects_gathers _ _ _).bind fun listeners => ?_
  refine (bound names).bind fun bindings => (modifyBody_gathers _).bind fun _ => ?_
  refine Gathers.get.bind fun d => ?_
  have called : Gathers T endless (Members.dependencyHooks m.toModelBase elementRefs [directiveHost]) :=
    Members.dependencyHooks_gathers m.toModelBase elementRefs [directiveHost] allowed
  split
  · exact (react_gathers).bind fun _ => called
  · exact called

/-! ### Routes -/

mutual

theorem routeEntry_gathers
    (allowed : ∀ name s, index.lookup name = some s → T (.component s.name s.unit)) (top : Bool) :
    ∀ r, Gathers T endless (routeEntry index top r)
  | .mk path component redirectTo pathMatch children loadChildren guards title => by
      unfold routeEntry
      extract_lets redirect titled shownPath rest shown
      have entries (found : Option String × List String) : Gathers T endless (rest found) := by
        unfold rest
        obtain ⟨element, missing⟩ := found
        dsimp -zeta only
        extract_lets more
        have inner (lazy : List String) : Gathers T endless (more lazy) := by
          have guarded : Gathers T endless (guards.mapM (guardNote path)) :=
            .mapM fun guard _ => (warn_gathers _).bind fun _ => .pure _
          exact guarded.bind fun _ => (routeEntries_gathers allowed children).bind fun _ => .pure _
        split
        · exact .bind (.pure _) inner
        · exact (warn_gathers _).bind fun _ => .bind (.pure _) inner
      have placed : Gathers T endless (shown ()) := by
        unfold shown
        split
        · exact .bind (.pure _) entries
        · split
          · rename_i found
            have known := (Option.filter_eq_some_iff.mp found).1
            exact (defaultOf_gathers (allowed _ _ known) _).bind fun _ => .bind (.pure _) entries
          · exact .bind (.pure _) entries
      split
      · exact (router_gathers).bind fun _ => placed
      · exact placed

theorem routeEntries_gathers
    (allowed : ∀ name s, index.lookup name = some s → T (.component s.name s.unit)) :
    ∀ rs, Gathers T endless (routeEntries index rs)
  | [] => by
      unfold routeEntries
      exact .pure _
  | r :: rs => by
      unfold routeEntries
      exact (routeEntry_gathers allowed false r).bind fun _ =>
        (routeEntries_gathers allowed rs).bind fun _ => .pure _

end

/-! ### Modules of a unit -/

/-- Components, hooks, wrappers, contexts and routes; neither plain functions nor stylesheets. -/
def Artifact.IsCode : Artifact → Prop
  | .util _ => False
  | .style _ => False
  | _ => True

/-- The references under which a model's own code is known. -/
def UnitModel.Owns : UnitModel → ArtifactRef → Prop
  | .component m, t => t = .component m.name m.sourcePath
  | .service m, t => t = .service m.name m.sourcePath
  | .pipe m, t => t = .pipeHook m.pipeName m.sourcePath
  | .directive m, t => t = directiveRef m
  | .module _, t => t.category = .contexts ∨ t.category = .pages
  | .routeTable _, t => t.category = .pages
  | .stub _, _ => False
  | .types _, _ => False

/-- The common part of the model of a class. -/
def UnitModel.class? : UnitModel → Option ModelBase
  | .component m => some m.toModelBase
  | .service m => some m.toModelBase
  | .pipe m => some m.toModelBase
  | .directive m => some m.toModelBase
  | _ => none

/-- Whether a module of the model takes over the imports of its file: a component, the hook of a service, the
function of a pipe, and a directive unless it is structural. -/
def UnitModel.carries : UnitModel → Artifact → Bool
  | .component _, .component _ => true
  | .service _, .hook _ => true
  | .pipe _, .util _ => true
  | .directive m, _ => !(m.directiveKind == .structural)
  | _, _ => false

/-- What a module of the model carries over from the source. -/
def UnitModel.carried (index : SymbolIndex) (m : UnitModel) (a : Artifact) : Imports :=
  match m.class? with
  | some b => if m.carries a then Imports.carry index b.sourcePath [] b.sourceImports else []
  | none => []

/-- A module of the model, with nothing imported beside what it carries over but what the model uses. -/
structure Makes (index : SymbolIndex) (m : UnitModel) (a : Artifact) : Prop where
  owned : m.Owns a.ref
  gathered : Gathered (m.Uses index) (m.carried index a) a.imports

theorem convertComponent_makes (m : ComponentModel) :
    (convertComponent index order m).Returns fun as =>
      ∀ a ∈ as, Makes index (.component m) a ∨ ∃ s, a = .style s := by
  refine (Noting.Returns.ofGathersFrom (draftComponent_gathers m) {}).bind ?_
  rintro ⟨⟨props, markup⟩, d⟩ gathered
  refine .pure fun a mem => ?_
  rcases List.mem_cons.mp mem with rfl | style
  · refine .inl ⟨rfl, ?_⟩
    simp only [Artifact.imports]
    split
    · exact gathered.trans (.add (.unit rfl rfl rfl (.styled m)))
    · exact gathered
  · split at style
    · exact .inr ⟨_, List.mem_singleton.mp style⟩
    · cases style

theorem convertService_makes (m : ServiceModel) :
    (convertService index order m).Returns fun as => ∀ a ∈ as, Makes index (.service m) a := by
  unfold convertService
  extract_lets tracked names hooks work
  have called : Gathers ((UnitModel.service m).Uses index) True (hooks ()) :=
    Members.dependencyHooks_gathers m.toModelBase [] [] fun dep mem kind => .injected mem kind
  have drafted : GathersFrom (fun i => i.carry index m.sourcePath m.sourceImports)
      ((UnitModel.service m).Uses index) work := by
    refine Gathers.after True ?_
    refine (Members.convert_gathers _ _).bind fun _ => (modifyBody_gathers _).bind fun _ => ?_
    split
    · exact (react_gathers).bind fun _ => called
    · exact called
  refine (Noting.Returns.ofGathersFrom drafted {}).bind ?_
  rintro ⟨_, d⟩ gathered
  refine .pure fun a mem => ?_
  rw [List.mem_singleton.mp mem]
  exact ⟨rfl, gathered⟩

theorem pipeHookModule_makes (m : PipeModel) (transform : MethodModel) :
    (pipeHookModule m transform).Returns fun h => Makes index (.pipe m) (.hook h) := by
  have provided (dep : Injected) (mem : dep ∈ m.dependencies) :
      Gathers ((UnitModel.pipe m).Uses index) True (pipeHookCall dep) := by
    unfold pipeHookCall
    split
    · rename_i kind
      exact (named_gathers (.injected mem (eq_of_beq kind)) _).bind fun _ => .pure _
    · split
      · exact (shared_gathers (by decide)).bind fun _ => .pure _
      · exact .pure _
  unfold pipeHookModule
  extract_lets function args call work
  have drafted : Gathers ((UnitModel.pipe m).Uses index) True work := by
    refine (named_gathers (.applied m) _).bind fun _ => ?_
    refine (Gathers.mapM provided).bind fun calls => ?_
    dsimp only
    split
    · exact (react_gathers).bind fun _ => .pure _
    · exact .pure _
  refine (Noting.Returns.ofGathers drafted {}).bind ?_
  rintro ⟨calls, d⟩ gathered
  exact .pure ⟨rfl, gathered⟩

theorem dependencyParam_gathers (dep : Injected) (allowed : ∀ t, T t) : Gathers T endless (dependencyParam dep) := by
  have typed (hook : String) (ref : ArtifactRef) : Gathers T endless (do
      Converting.imports fun i => i.add { names := [hook], target := some ref, typeOnly := true }
      return ({ name := dep.name, type := some s!"ReturnType<typeof {hook}>" } : Param)) :=
    .bind (.modify fun _ => .add (.unit rfl rfl rfl (allowed ref))) fun _ => .pure _
  unfold dependencyParam
  extract_lets
  split
  · exact typed _ _
  · split
    · exact typed _ _
    · exact .pure _

/-- The function of a pipe takes imports over. -/
theorem pipeFunctionModule_gathered (m : PipeModel) (transform : MethodModel) :
    (pipeFunctionModule index m transform).Returns fun u =>
      Gathered (fun _ => True) (Imports.carry index m.sourcePath [] m.sourceImports) u.imports := by
  unfold pipeFunctionModule
  extract_lets function names cell work
  have celled (name : String) (v type : Option String) : Gathers (fun _ => True) True (cell name v type) :=
    .bind (.bind (Members.value_gathers names v) fun _ => .pure _) fun _ => .pure _
  have drafted : GathersFrom (fun i => i.carry index m.sourcePath m.sourceImports) (fun _ => True) work := by
    refine Gathers.after True ?_
    refine (Gathers.mapM fun c _ => celled _ _ _).bind fun _ => ?_
    refine (Gathers.mapM fun c _ => celled _ _ _).bind fun _ => ?_
    refine (Gathers.mapM fun c _ => celled _ _ _).bind fun _ => ?_
    refine (Gathers.forM fun g _ => warn_gathers _).bind fun _ => ?_
    refine (Gathers.mapM fun f _ => (body_gathers names f.body).bind fun _ => .pure _).bind fun _ => ?_
    refine (Gathers.mapM fun dep _ => dependencyParam_gathers dep fun _ => trivial).bind fun _ => ?_
    exact (body_gathers names transform.body).bind fun _ => .pure _
  refine (Noting.Returns.ofGathersFrom drafted {}).bind ?_
  rintro ⟨util, d⟩ gathered
  exact .pure gathered

theorem convertPipe_makes (m : PipeModel) :
    (convertPipe index m).Returns fun as => ∀ a ∈ as, Makes index (.pipe m) a ∨
      ∃ u, a = .util u ∧ Gathered (fun _ => True) ((UnitModel.pipe m).carried index a) u.imports := by
  unfold convertPipe
  split
  · exact .throw _
  · refine (pipeFunctionModule_gathered m _).bind fun function gathered => ?_
    refine Noting.Returns.bind (P := fun hook => Makes index (.pipe m) (.hook hook))
      (pipeHookModule_makes m _) fun hook made => .pure fun a mem => ?_
    rcases List.mem_cons.mp mem with rfl | mem
    · exact .inr ⟨function, rfl, gathered⟩
    · rw [List.mem_singleton.mp mem]
      exact .inl made

theorem convertDirective_makes (m : DirectiveModel) :
    (convertDirective index order m).Returns fun as => ∀ a ∈ as, Makes index (.directive m) a := by
  have drafted (start : Imports → Imports) :
      GathersFrom start ((UnitModel.directive m).Uses index) (do
        Converting.imports start
        draftDirective order m) :=
    Gathers.after True (draftDirective_gathers m fun dep mem kind => .injected mem kind)
  unfold convertDirective
  split
  · rename_i structural
    refine .pure fun a mem => ?_
    rw [List.mem_singleton.mp mem]
    have nothing : (UnitModel.directive m).carried index (.component (structuralDirective m)) = [] := by
      simp [UnitModel.carried, UnitModel.class?, UnitModel.carries, eq_of_beq structural]
    refine ⟨rfl, ?_⟩
    rw [nothing]
    exact reactType_gathered []
  · rename_i other
    have carries (a : Artifact) : (UnitModel.directive m).carried index a =
        Imports.carry index m.sourcePath [] m.sourceImports := by
      simp [UnitModel.carried, UnitModel.class?, UnitModel.carries, other]
    split
    · refine Noting.Returns.bind (P := fun c => Makes index (.directive m) (.component c)) ?_
        fun c made => .pure fun a mem => ?_
      · refine (Noting.Returns.ofGathersFrom (drafted _) {}).bind ?_
        rintro ⟨_, d⟩ gathered
        refine .pure ⟨rfl, ?_⟩
        rw [carries]
        exact ((reactType_gathered _).trans (react_gathered _)).trans gathered
      · rw [List.mem_singleton.mp mem]
        exact made
    · refine Noting.Returns.bind (P := fun h => Makes index (.directive m) (.hook h)) ?_
        fun h made => .pure fun a mem => ?_
      · refine (Noting.Returns.ofGathersFrom (drafted _) {}).bind ?_
        rintro ⟨_, d⟩ gathered
        refine .pure ⟨rfl, ?_⟩
        rw [carries]
        exact (reactType_gathered _).trans gathered
      · rw [List.mem_singleton.mp mem]
        exact made

theorem moduleContext_makes (m : ModuleModel) :
    Makes index (.module m) (.context (moduleContext index m)) := by
  refine ⟨.inl rfl, ?_⟩
  have provided (deps : List Injected) (mem : ∀ dep ∈ deps, dep ∈ m.providers) (i : Imports) :
      Gathered ((UnitModel.module m).Uses index) i (deps.foldl (fun i dep =>
        i.named dep.ref (Naming.serviceHookName (dep.target.getD ""))) i) := by
    induction deps generalizing i with
    | nil => exact .refl
    | cons dep deps ih =>
        have used : (UnitModel.module m).Uses index dep.ref := .provided (mem dep List.mem_cons_self)
        have first : Gathered ((UnitModel.module m).Uses index) i
            (i.named dep.ref (Naming.serviceHookName (dep.target.getD ""))) :=
          .add (.unit rfl rfl rfl used)
        exact first.trans (ih (fun d hd => mem d (List.mem_cons_of_mem dep hd)) _)
  exact ((react_gathered _).trans (reactType_gathered _)).trans (provided m.providers (fun _ h => h) _)

theorem routeModule_makes {m : UnitModel} (routing : (∃ n, m = .module n) ∨ ∃ n, m = .routeTable n)
    (base sourcePath : String) (routes : List RouteDecl) :
    (routeModule index base sourcePath routes).Returns (Makes index m) := by
  unfold routeModule
  dsimp -zeta only
  extract_lets work
  have drafted : Gathers (m.Uses index) True work := by
    refine .bind (.modify fun d => ?_) fun _ => ?_
    · refine .trans (.fromPackage fun n hn => .library ?_) (.add (.library ?_))
      · rw [List.mem_singleton.mp hn]
        decide
      · decide
    · exact .mapM fun r _ => routeEntry_gathers (fun name s found => .routed found routing) true r
  refine (Noting.Returns.ofGathers drafted {}).bind ?_
  rintro ⟨entries, d⟩ gathered
  rcases routing with ⟨n, rfl⟩ | ⟨n, rfl⟩
  · exact .pure ⟨.inr rfl, gathered⟩
  · exact .pure ⟨rfl, gathered⟩

theorem convertModule_makes (m : ModuleModel) :
    (convertModule index m).Returns fun as => ∀ a ∈ as, Makes index (.module m) a := by
  unfold convertModule
  extract_lets context rest
  have both (routes : List Artifact) (made : ∀ a ∈ routes, Makes index (.module m) a) :
      (rest routes).Returns fun as => ∀ a ∈ as, Makes index (.module m) a := by
    refine .pure fun a ha => ?_
    rcases List.mem_append.mp ha with ha | ha
    · unfold context at ha
      split at ha
      · rw [List.mem_singleton.mp ha]
        exact moduleContext_makes m
      · cases ha
    · exact made a ha
  split
  · refine (routeModule_makes (.inl ⟨m, rfl⟩) _ _ _).bind fun a made => ?_
    simp only [pure_bind]
    exact both [a] (by simpa using made)
  · simp only [pure_bind]
    exact both [] (by simp)

theorem convertRouteTable_makes (m : RouteTableModel) :
    (convertRouteTable index m).Returns fun as => ∀ a ∈ as, Makes index (.routeTable m) a := by
  refine (routeModule_makes (.inr ⟨m, rfl⟩) _ _ _).bind fun a made => .pure fun b mem => ?_
  rw [List.mem_singleton.mp mem]
  exact made

theorem stub_noImports (s : StubModel) :
    (convertOwn index order (.stub s)).Returns fun as => ∀ a ∈ as, a.imports = [] := by
  refine Noting.Returns.bind (P := fun a => a.imports = []) ?_ fun a none => .pure fun b mem => ?_
  · intro t a t' run
    cases made : stub index s with
    | error f =>
        rw [made] at run
        cases run
    | ok b =>
        rw [made] at run
        cases run
        exact stub_imports made
  · rw [List.mem_singleton.mp mem]
    exact none

/-- Every component, hook, wrapper, context and table of routes that a model becomes imports only what
the model uses; a stub imports nothing. -/
theorem convertOwn_makes (m : UnitModel) :
    (convertOwn index order m).Returns fun as =>
      ∀ a ∈ as, a.IsCode → a.imports ≠ [] → Makes index m a := by
  intro t as t' run a mem code some
  cases m with
  | component m =>
      rcases convertComponent_makes m t as t' run a mem with made | ⟨s, rfl⟩
      · exact made
      · exact code.elim
  | service m => exact convertService_makes m t as t' run a mem
  | pipe m =>
      rcases convertPipe_makes m t as t' run a mem with made | ⟨u, rfl, -⟩
      · exact made
      · exact code.elim
  | directive m => exact convertDirective_makes m t as t' run a mem
  | module m => exact convertModule_makes m t as t' run a mem
  | routeTable m => exact convertRouteTable_makes m t as t' run a mem
  | stub s => exact absurd (stub_noImports s t as t' run a mem) some
  | types m =>
      cases run
      rw [List.mem_singleton.mp mem] at code
      exact code.elim

/-- Whatever a model becomes starts with what it takes over. -/
theorem convertOwn_gathered (m : UnitModel) :
    (convertOwn index order m).Returns fun as =>
      ∀ a ∈ as, Gathered (fun _ => True) (m.carried index a) a.imports := by
  intro t as t' run a mem
  have ofMakes {m : UnitModel} (made : Makes index m a) : Gathered (fun _ => True) (m.carried index a) a.imports :=
    made.gathered.mono fun _ _ => trivial
  cases m with
  | component m =>
      rcases convertComponent_makes m t as t' run a mem with made | ⟨s, rfl⟩
      · exact ofMakes made
      · exact .refl
  | service m => exact ofMakes (convertService_makes m t as t' run a mem)
  | pipe m =>
      rcases convertPipe_makes m t as t' run a mem with made | ⟨u, rfl, gathered⟩
      · exact ofMakes made
      · exact gathered
  | directive m => exact ofMakes (convertDirective_makes m t as t' run a mem)
  | module m => exact ofMakes (convertModule_makes m t as t' run a mem)
  | routeTable m => exact ofMakes (convertRouteTable_makes m t as t' run a mem)
  | stub s =>
      rw [stub_noImports s t as t' run a mem]
      exact .refl
  | types m =>
      cases run
      rw [List.mem_singleton.mp mem]
      exact .refl

end ReactMigration
