import Mathlib.Data.List.Perm.Subperm
import ReactMigration.Model.Build
import ReactMigration.Proofs.Linking

/-!
What the model of a unit takes over from its declaration: the name, the unit and its imports, the fields by
role, the methods under their names, and dependencies that are resolved against the index.
-/

namespace ReactMigration.Model

open ReactMigration.Template

variable {index : SymbolIndex} {ds : List Declaration}

/-! ### Dependencies -/

/-- The target is a service of the index. -/
def TargetsService (index : SymbolIndex) (i : Injected) : Prop :=
  ∃ s, index.Registered s ∧ s.kind = .service ∧ i.target = some s.name ∧ i.targetUnit = some s.unit

/-- The dependency keeps its name, one that is resolved to a service targets it, and one that is
built in is provided by the framework. -/
structure Resolves (index : SymbolIndex) (dep : Dependency) (i : Injected) : Prop where
  name : i.name = dep.name
  service : i.kind = .service → TargetsService index i
  builtin : i.kind = .builtin → Framework.isProvider i.typeName = true

theorem resolveDependency_ensures (sound : SymbolIndex.Sound ds index) (owner : String)
    (dep : Dependency) : (resolveDependency index owner dep).Ensures (Resolves index dep) := by
  unfold resolveDependency
  extract_lets base typeName injected
  clear_value typeName
  have missing : (resolveDependency.missing owner dep injected).Ensures (Resolves index dep) :=
    (Noting.Ensures.warn _ _).bind fun _ _ => .pure ⟨rfl, nofun, nofun⟩
  split
  · rename_i provided
    have builtin : Resolves index dep (injected .builtin) := ⟨rfl, nofun, fun _ => provided⟩
    split
    · exact (Noting.Ensures.warn _ _).bind fun _ _ => .pure builtin
    · exact .pure builtin
  · split
    · rename_i s found
      split
      · rename_i kind
        refine .pure ⟨rfl, fun _ => ?_, nofun⟩
        exact ⟨s, sound.registered_of_lookup found, by simpa using kind, rfl, rfl⟩
      · exact missing
    · exact missing

theorem resolveDependencies_ensures (sound : SymbolIndex.Sound ds index) (d : DeclBase) :
    (resolveDependencies index d).Ensures (List.Forall₂ (Resolves index) d.dependencies) :=
  .mapM fun dep _ => resolveDependency_ensures sound d.name dep

/-! ### Members -/

/-- The state cell that a field becomes. -/
def FieldRole.state? : FieldRole → Option StateCell
  | .state c => some c
  | _ => none

/-- The ref that a field becomes. -/
def FieldRole.ref? : FieldRole → Option RefCell
  | .ref c => some c
  | _ => none

/-- The constant that a field becomes. -/
def FieldRole.constant? : FieldRole → Option ConstantCell
  | .constant c => some c
  | _ => none

/-- The name of the cell that a field becomes. -/
def FieldRole.name : FieldRole → String
  | .state c => c.name
  | .ref c => c.name
  | .constant c => c.name

theorem fieldRole_name (d : DeclBase) (assigned : Table String) (mutated : List String)
    (f : FieldDecl) : (fieldRole d assigned mutated f).name = f.name := by
  unfold fieldRole
  extract_lets initial isPublic
  split
  · rfl
  · split
    · rfl
    · split
      · rfl
      · split
        · rfl
        · split
          · rfl
          · split <;> rfl

/-- Whether a method stays a member: not the constructor, no lifecycle method, none that is skipped,
and no setter. -/
def isMember (skip : List String) (m : MethodDecl) : Bool :=
  !(m.name == "constructor" || Framework.lifecycle.contains m.name || skip.contains m.name) &&
    m.accessor != some .set

/-- A model of a class whose template changes some of the fields; some of its methods are skipped. -/
structure Models (index : SymbolIndex) (d : DeclBase) (mutated skip : List String) (m : ModelBase) :
    Prop where
  name : m.name = d.name
  sourcePath : m.sourcePath = d.sourcePath
  sourceImports : m.sourceImports = d.sourceImports
  dependencies : List.Forall₂ (Resolves index) d.dependencies m.dependencies
  state : m.state = (fieldRoles d mutated).filterMap FieldRole.state?
  refs : m.refs = (fieldRoles d mutated).filterMap FieldRole.ref?
  constants : m.constants = (fieldRoles d mutated).filterMap FieldRole.constant?
  methods : (m.methods.map (·.name) ++ m.getters.map (·.name)).Subperm
    ((d.methods.filter (isMember skip)).map (·.name))

/-- The model with methods and getters added under the names of the given methods that stay
members. -/
def Collects (skip : List String) (m : ModelBase) (given : List MethodDecl) (m' : ModelBase) : Prop :=
  ∃ ms gs, m' = { m with methods := m.methods ++ ms, getters := m.getters ++ gs } ∧
    (ms.map (·.name) ++ gs.map (·.name)).Perm ((given.filter (isMember skip)).map (·.name))

theorem Collects.skip {skip : List String} {m m' : ModelBase} {given : List MethodDecl}
    {method : MethodDecl} (h : Collects skip m given m') (no : isMember skip method = false) :
    Collects skip m (given ++ [method]) m' := by
  obtain ⟨ms, gs, eq, perm⟩ := h
  exact ⟨ms, gs, eq, by simpa [no] using perm⟩

theorem Collects.getter {skip : List String} {m m' : ModelBase} {given : List MethodDecl}
    {method : MethodDecl} (h : Collects skip m given m') (yes : isMember skip method = true) :
    Collects skip m (given ++ [method])
      { m' with getters := m'.getters ++ [⟨method.name, method.body, method.returnType⟩] } := by
  obtain ⟨ms, gs, rfl, perm⟩ := h
  refine ⟨ms, gs ++ [⟨method.name, method.body, method.returnType⟩], by simp, ?_⟩
  simpa [yes, ← List.append_assoc] using perm.append_right [method.name]

theorem Collects.method {skip : List String} {m m' : ModelBase} {given : List MethodDecl}
    {method : MethodDecl} (h : Collects skip m given m') (yes : isMember skip method = true) :
    Collects skip m (given ++ [method])
      { m' with methods := m'.methods ++ [methodModel method] } := by
  obtain ⟨ms, gs, rfl, perm⟩ := h
  refine ⟨ms ++ [methodModel method], gs, by simp, ?_⟩
  have swapped : ([method.name] ++ gs.map (·.name)).Perm (gs.map (·.name) ++ [method.name]) :=
    List.perm_append_comm
  have moved : (ms.map (·.name) ++ [method.name] ++ gs.map (·.name)).Perm
      (ms.map (·.name) ++ gs.map (·.name) ++ [method.name]) := by
    simpa using swapped.append_left (ms.map (·.name))
  simpa [yes, methodModel] using moved.trans (perm.append_right [method.name])

theorem collectMethods_ensures (d : DeclBase) (skip : List String) (m : ModelBase) :
    (collectMethods d skip m).Ensures (Collects skip m d.methods) := by
  refine .foldlM (fun given m' method h => ?_) d.methods [] ⟨[], [], by simp, by simp⟩
  split
  · rename_i passed
    refine .pure (h.skip ?_)
    rw [isMember, passed]
    rfl
  · rename_i ordinary
    have plain (accessor : method.accessor ≠ some .set) : isMember skip method = true := by
      rw [Bool.not_eq_true] at ordinary
      rw [isMember, ordinary]
      simpa using accessor
    split
    · rename_i accessor
      exact .pure (h.getter (plain (by simp [accessor])))
    · rename_i accessor
      exact (Noting.Ensures.warnAt _ _ _ _).bind fun _ _ =>
        .pure (h.skip (by simp [isMember, accessor]))
    · rename_i accessor
      exact .pure (h.method (plain (by simp [accessor])))

theorem setterEffects_ensures (setters : List (MethodDecl × String)) :
    (setterEffects setters).Ensures fun _ => True := by
  refine (Noting.Ensures.mapM (R := fun _ _ => True) fun setter _ => ?_).mono fun _ _ => trivial
  dsimp only
  split
  · exact (Noting.Ensures.lift fun _ _ => trivial).bind fun _ _ => .pure trivial
  · exact .pure trivial

/-- The effects of a class start with being mounted. -/
theorem lifecycleEffects_mounts (d : DeclBase) (inputs : List InputProp) :
    (lifecycleEffects d inputs).Ensures fun effects => ∃ more, effects = mountEffect d ++ more := by
  have changes (m : MethodDecl) : (changesEffect m inputs).Ensures fun _ => True := by
    unfold changesEffect
    extract_lets
    split
    · exact (Noting.Ensures.warnAt _ _ _ _).bind fun _ _ => .pure trivial
    · exact .pure trivial
  unfold lifecycleEffects
  simp only [List.append_assoc]
  split
  · simp only [pure_bind]
    exact (changes _).bind fun _ _ => (setterEffects_ensures _).bind fun _ _ => .pure ⟨_, rfl⟩
  · exact (setterEffects_ensures _).bind fun _ _ => .pure ⟨_, rfl⟩

theorem lifecycleEffects_ensures (d : DeclBase) (inputs : List InputProp) :
    (lifecycleEffects d inputs).Ensures fun _ => True :=
  (lifecycleEffects_mounts d inputs).mono fun _ _ => trivial

/-- Classifying the fields of a class gives a model of it. -/
theorem Models.ofFields {d : DeclBase} (mutated skip : List String) {deps : List Injected}
    (resolved : List.Forall₂ (Resolves index) d.dependencies deps) :
    Models index d mutated skip
      (classifyFields d { emptyBase d with dependencies := deps } mutated) where
  name := rfl
  sourcePath := rfl
  sourceImports := rfl
  dependencies := resolved
  state := rfl
  refs := rfl
  constants := rfl
  methods := List.nil_subperm

/-- So does collecting its methods afterwards. -/
theorem Models.ofCollected {d : DeclBase} {mutated skip : List String} {deps : List Injected}
    {m : ModelBase} (resolved : List.Forall₂ (Resolves index) d.dependencies deps)
    (collected : Collects skip
      (classifyFields d { emptyBase d with dependencies := deps } mutated) d.methods m) :
    Models index d mutated skip m := by
  obtain ⟨ms, gs, rfl, perm⟩ := collected
  exact { Models.ofFields mutated skip resolved with
    methods := by simpa [classifyFields, emptyBase] using perm.subperm }

/-! ### Whole models -/

/-- The model of a component. -/
structure ComponentOf (index : SymbolIndex) (d : ComponentDecl) (m : ComponentModel) : Prop where
  base : ∃ mutated, Models index d.toDeclBase mutated (setterNames d.inputs) m.toModelBase
  inputs : m.inputs = d.inputs
  outputs : m.outputs = d.outputs
  template : AllLinked index m.template
  templateRefs : RefsLinked index m.templateRefs

/-- The model of a directive. -/
structure DirectiveOf (index : SymbolIndex) (d : DirectiveDecl) (m : DirectiveModel) : Prop where
  base : Models index d.toDeclBase [] (setterNames d.inputs) m.toModelBase
  inputs : m.inputs = d.inputs
  outputs : m.outputs = d.outputs
  directiveKind : m.directiveKind = d.directiveKind
  rendersMarkup : m.rendersMarkup = d.rendersMarkup

/-- The model that a declaration is built into; one that needs manual work becomes a stub. -/
inductive Built (index : SymbolIndex) : Declaration → UnitModel → Prop
  | review (d : Declaration) {m : StubModel} (kind : d.kind = .component ∨ d.kind = .directive)
      (name : m.name = d.name) (unitKind : m.unitKind = some d.kind)
      (sourcePath : m.sourcePath = d.base.sourcePath) (reason : m.reason ≠ "") :
      Built index d (.stub m)
  | component {d : ComponentDecl} {m : ComponentModel} (of : ComponentOf index d m) :
      Built index (.component d) (.component m)
  | service {d : ServiceDecl} {m : ServiceModel} (of : Models index d.toDeclBase [] [] m.toModelBase) :
      Built index (.service d) (.service m)
  | pipe {d : PipeDecl} {m : PipeModel}
      (of : Models index d.toDeclBase [] ["transform"] m.toModelBase)
      (pipeName : m.pipeName = d.pipeName) : Built index (.pipe d) (.pipe m)
  | directive {d : DirectiveDecl} {m : DirectiveModel} (of : DirectiveOf index d m) :
      Built index (.directive d) (.directive m)
  | module {d : ModuleDecl} {m : ModuleModel} (name : m.name = d.name)
      (sourcePath : m.sourcePath = d.sourcePath)
      (providers : ∀ i ∈ m.providers, TargetsService index i) : Built index (.module d) (.module m)
  | routes {d : RouteConfigDecl} {m : RouteTableModel} (sourcePath : m.sourcePath = d.sourcePath) :
      Built index (.routes d) (.routeTable m)

theorem reviewReason_present {d : DeclBase} {inputs : List InputProp} {reason : String}
    (h : reviewReason? d inputs = some reason) : reason ≠ "" := by
  unfold reviewReason? at h
  split at h
  · cases h
  · extract_lets diffing listed at h
    split at h
    · cases h
    · rw [← Option.some.inj h]
      simp [toString]

theorem buildComponent_ensures (sound : SymbolIndex.Sound ds index) (d : ComponentDecl) :
    (buildComponent index d).Ensures (Built index (.component d)) := by
  unfold buildComponent
  refine (Noting.Ensures.forM fun path _ => .warn _ _).bind fun _ _ => ?_
  split
  · rename_i review
    exact (Noting.Ensures.warn _ _).bind fun _ _ =>
      .pure (.review _ (.inl rfl) rfl rfl rfl (reviewReason_present review))
  · extract_lets start rest
    have built (nodes : List Node) (scope : TemplateScope) (linked : AllLinked index nodes)
        (refs : RefsLinked index scope.refs) :
        (rest (nodes, scope)).Ensures (Built index (.component d)) := by
      refine (resolveDependencies_ensures sound d.toDeclBase).bind fun deps resolved => ?_
      refine (collectMethods_ensures _ _ _).bind fun base collected => ?_
      refine (lifecycleEffects_ensures _ _).bind fun effects _ => .pure (.component ?_)
      have models := Models.ofCollected resolved collected
      exact ⟨⟨scope.mutated, { models with }⟩, rfl, rfl, linked, refs⟩
    split
    · refine Noting.Ensures.bind (.modify ?_) fun _ _ => ?_
      · exact fun s => s.continues_record _
      · exact built [] {} (by simp only [AllLinked]) (by simp [RefsLinked])
    · refine Noting.Ensures.bind (linkNodes_links sound d.templateNodes {} (by simp [RefsLinked])) ?_
      exact fun r h => built r.1 r.2 h.2 h.1

theorem buildService_ensures (sound : SymbolIndex.Sound ds index) (d : ServiceDecl) :
    (buildService index d).Ensures (Built index (.service d)) := by
  refine (resolveDependencies_ensures sound d.toDeclBase).bind fun deps resolved => ?_
  refine (collectMethods_ensures _ _ _).bind fun base collected => ?_
  refine (lifecycleEffects_ensures _ _).bind fun effects _ => .pure (.service ?_)
  have models := Models.ofCollected resolved collected
  exact { models with }

theorem buildPipe_ensures (sound : SymbolIndex.Sound ds index) (d : PipeDecl) :
    (buildPipe index d).Ensures (Built index (.pipe d)) := by
  unfold buildPipe
  split
  · exact .throw _
  · refine (resolveDependencies_ensures sound d.toDeclBase).bind fun deps resolved => ?_
    refine (Noting.Ensures.forM fun _ _ => .warn _ _).bind fun _ _ => ?_
    refine (collectMethods_ensures _ _ _).bind fun base collected => .pure (.pipe ?_ rfl)
    have models := Models.ofCollected resolved collected
    exact { models with }

theorem buildDirective_ensures (sound : SymbolIndex.Sound ds index) (d : DirectiveDecl) :
    (buildDirective index d).Ensures (Built index (.directive d)) := by
  unfold buildDirective
  split
  · rename_i review
    exact (Noting.Ensures.warn _ _).bind fun _ _ =>
      .pure (.review _ (.inr rfl) rfl rfl rfl (reviewReason_present review))
  · extract_lets attr start finish condition rest
    have finished {m : ModelBase} (models : Models index d.toDeclBase [] (setterNames d.inputs) m)
        (condition : Option String) : Built index (.directive d) (finish m condition) :=
      .directive ⟨models, rfl, rfl, rfl, rfl⟩
    have built : (rest ()).Ensures (Built index (.directive d)) := by
      refine (resolveDependencies_ensures sound d.toDeclBase).bind fun deps resolved => ?_
      have fields := Models.ofFields [] (setterNames d.inputs) resolved
      extract_lets
      split
      · split
        · exact (Noting.Ensures.warn _ _).bind fun _ _ => .pure (finished fields _)
        · exact .pure (finished fields _)
      · refine (collectMethods_ensures _ _ _).bind fun base collected => ?_
        refine (lifecycleEffects_ensures _ _).bind fun effects _ => .pure (finished ?_ none)
        have models := Models.ofCollected resolved collected
        exact { models with }
    split
    · exact (Noting.Ensures.warn _ _).bind fun _ _ => built
    · exact built

mutual

theorem checkRoute_ensures : ∀ r, (checkRoute index r).Ensures fun _ => True
  | .mk path component _ _ children _ _ _ => by
      unfold checkRoute
      extract_lets rest
      have checked : (rest ()).Ensures fun _ => True := checkRoutes_ensures children
      split
      · split
        · exact (Noting.Ensures.warn _ _).bind fun _ _ => checked
        · exact checked
      · exact checked

theorem checkRoutes_ensures : ∀ rs, (checkRoutes index rs).Ensures fun _ => True
  | [] => by
      unfold checkRoutes
      exact .pure trivial
  | r :: rs => by
      unfold checkRoutes
      exact (checkRoute_ensures r).bind fun _ _ => checkRoutes_ensures rs

end

theorem buildModule_ensures (sound : SymbolIndex.Sound ds index) (d : ModuleDecl) :
    (buildModule index d).Ensures (Built index (.module d)) := by
  unfold buildModule
  refine Noting.Ensures.bind (P := fun found => ∀ i ∈ found.flatten, TargetsService index i) ?_
    fun found targets => ?_
  · refine Noting.Ensures.mono (.mapM_all (R := fun is => ∀ i ∈ is, TargetsService index i)
      fun provider _ => ?_) fun found h i hi => ?_
    · split
      · rename_i s hs
        obtain ⟨found, kind⟩ := Option.filter_eq_some_iff.mp hs
        refine .pure fun i hi => ?_
        rw [List.mem_singleton] at hi
        subst hi
        exact ⟨s, sound.registered_of_lookup found, by simpa using kind, rfl, rfl⟩
      · exact (Noting.Ensures.warn _ _).bind fun _ _ => .pure (by simp)
    · obtain ⟨is, his, mem⟩ := List.mem_flatten.mp hi
      exact h is his i mem
  · refine (Noting.Ensures.forM fun name _ => ?_).bind fun _ _ => ?_
    · split
      · exact .pure trivial
      · exact .warn _ _
    · extract_lets start rest
      have built (routes : List RouteDecl) (unit : Option String) :
          (rest (routes, unit)).Ensures (Built index (.module d)) :=
        (checkRoutes_ensures routes).bind fun _ _ => .pure (.module rfl rfl targets)
      simp only [pure_bind]
      split
      · exact built d.routes none
      · split
        · exact (Noting.Ensures.warn _ _).bind fun _ _ => built d.routes none
        · exact built (routesOf _) _

/-- A declaration is built into a model of it, or building breaks off. -/
theorem build_ensures (sound : SymbolIndex.Sound ds index) (d : Declaration) :
    (build index d).Ensures (Built index d) := by
  cases d with
  | component d => exact buildComponent_ensures sound d
  | service d => exact buildService_ensures sound d
  | pipe d => exact buildPipe_ensures sound d
  | directive d => exact buildDirective_ensures sound d
  | module d => exact buildModule_ensures sound d
  | routes d => exact (checkRoutes_ensures d.routes).bind fun _ _ => .pure (.routes rfl)

end ReactMigration.Model
