import ReactMigration.Proofs.Members
import ReactMigration.Proofs.Templates

/-!
The function that a component, a service or a directive becomes.

`Written` says what stands in each group of its body: the members of the model in order, and what is
made besides them.  Its imports come from modules that the run gives.
-/

namespace ReactMigration

open ReactMigration.Text
open Relation (ReflTransGen)

variable {index : SymbolIndex} {order : NameOrder} {ds : List Declaration}

/-- What is made for a class besides its members: calls and refs for each dependency and the call for
navigation, state of asynchronous methods, refs of template elements and of the host, awaited values
and memos of the template. -/
structure Additions where
  found : List (List String × List RefDecl) := []
  extra : List String := []
  tracked : List StateDecl := []
  held : List RefDecl := []
  host : List RefDecl := []
  awaited : List ConstDecl := []
  remembered : List MemoDecl := []

/-- The members of the model and the additions, group by group. -/
structure Written (m : ModelBase) (ctx : RecastContext) (x : Additions) (b : FunctionBody) : Prop where
  hookCalls : b.hookCalls = x.found.flatMap (·.1) ++ x.extra
  state : b.state = m.state.map (·.decl ctx) ++ x.tracked
  refs : b.refs = x.found.flatMap (·.2) ++ (m.refs.map (·.decl ctx) ++ x.held ++ x.host)
  constants : b.constants = m.constants.map (·.decl ctx)
  functions : b.functions.map (·.name) = m.methods.map (·.name)
  derived : b.derived = m.getters.map (·.decl ctx) ++ x.awaited
  memos : b.memos = x.remembered

/-- What stands for the dependencies, `present` being the names already in scope. -/
structure Injects (elementRefs : Table String) (present : List String) (m : ModelBase)
    (x : Additions) : Prop where
  found : List.Forall₂ (Members.Provides elementRefs present) m.dependencies x.found
  extra : x.extra = [] ∨ x.extra = [Members.navigateCall]

/-- The draft imports modules that the run gives, and its body is written. -/
structure Filled (index : SymbolIndex) (m : ModelBase) (ctx : RecastContext) (x : Additions)
    (d : Draft) : Prop where
  imports : d.imports.Known index
  body : Written m ctx x d.body

namespace Filled

variable {m : ModelBase} {ctx : RecastContext} {x : Additions} {d d' : Draft}

theorem prepares (h : Filled index m ctx x d) (p : d.Prepares index d') :
    Filled index m ctx x d' :=
  ⟨p.known h.imports, p.body ▸ h.body⟩

theorem start (known : d.imports.Known index) :
    Runs (Members.convert m ctx) d fun _ d' => Filled index m ctx {} d' := by
  refine (@Members.convert_runs index m ctx d).mono ?_
  rintro _ d' ⟨effects, prepared⟩
  have written : Written m ctx {} (Members.bodyOf m ctx effects) := by
    constructor <;> simp [Members.bodyOf, Function.comp_def]
  have filled : Filled index m ctx {} { d with body := Members.bodyOf m ctx effects } :=
    ⟨known, written⟩
  exact filled.prepares prepared

/-- Effects do not touch what is written. -/
theorem effects (h : Filled index m ctx x d) (f : List EffectDecl → List EffectDecl) :
    Filled index m ctx x { d with body := { d.body with effects := f d.body.effects } } :=
  ⟨h.imports, { h.body with }⟩

/-- Work that only relies on more of the view library may come first. -/
theorem react_bind {α : Type} {f : Unit → Converting α} {Q : α → Draft → Prop} {names : List String}
    (h : Filled index m ctx x d) (next : ∀ d', Filled index m ctx x d' → Runs (f ()) d' Q) :
    Runs (Converting.react names >>= f) d Q :=
  (Converting.react_prepares names).follow (.refl d) fun d' prepared => next d' (h.prepares prepared)

theorem inject (sound : SymbolIndex.Sound ds index) (h : Filled index m ctx x d)
    (found : x.found = []) (extra : x.extra = []) (elementRefs : Table String)
    (provided : List String)
    (service : ∀ dep ∈ m.dependencies, dep.kind = .service → Model.TargetsService index dep) :
    Runs (Members.dependencyHooks m elementRefs provided) d fun _ d' =>
      ∃ found extra, Filled index m ctx { x with found, extra } d' ∧
        Injects elementRefs (provided ++ d.body.refs.map (·.name)) m { x with found, extra } := by
  refine (Members.dependencyHooks_runs sound elementRefs provided service d).mono ?_
  rintro _ d' ⟨calls, more, provides, navigation, prepared⟩
  have w := h.body
  have written : Written m ctx { x with found := calls, extra := more }
      (Members.injecting calls more d.body) :=
    { w with
      hookCalls := by simp [Members.injecting, w.hookCalls, found, extra]
      refs := by simp [Members.injecting, w.refs, found] }
  have filled : Filled index m ctx { x with found := calls, extra := more }
      { d with body := Members.injecting calls more d.body } :=
    ⟨h.imports, written⟩
  exact ⟨calls, more, filled.prepares prepared, provides, navigation⟩

end Filled

/-! ### Components -/

/-- The names in the scope of a component's members. -/
def componentNames (order : NameOrder) (m : ComponentModel) : RecastContext :=
  Members.context order m.toModelBase (m.inputs.map (·.name)) (outputCallbacks m.outputs)
    (injectedElements m.toModelBase id)

/-- The props of a component: inputs, callbacks of outputs, and projected content. -/
def componentProps (m : ComponentModel) : List PropField :=
  m.inputs.map inputProp ++
    m.outputs.map (outputProp (emittingTexts m.toModelBase ++ templateHandlers m.template)) ++
    if m.projectsContent then [{ name := "children", type := "ReactNode", optional := true }] else []

/-- The ref that is made for the host element. -/
def madeHost : RefDecl :=
  { name := "hostRef", initial := some "null", type := some "HTMLElement" }

/-- The additions to a component: the names that the template makes are new, and a ref to the host
element is made only without an injected one. -/
structure ComponentAdditions (order : NameOrder) (m : ComponentModel) (x : Additions) : Prop where
  tracked : x.tracked = []
  free : ∀ name ∈ Draft.madeNames x.held x.awaited x.remembered,
    name ∉ (componentNames order m).members ++ (componentNames order m).outputs.values ++ m.refs.map (·.name)
  nodup : (Draft.madeNames x.held x.awaited x.remembered).Nodup
  empty : ∀ r ∈ x.held, r.initial = some "null"
  host : x.host = [] ∨ x.host = [madeHost] ∧ injectedElements m.toModelBase id = []
  injects : Injects (injectedElements m.toModelBase id)
    ((m.refs.map (·.name) ++ x.held.map (·.name)) ++ x.host.map (·.name)) m.toModelBase x

theorem attachHost_runs (name host : String) (markup : Option Markup) (d : Draft) :
    Runs (attachHost name host markup) d fun _ d' => d.Prepares index d' := by
  have noRoot : Runs (attachHost.noRoot name markup) d fun _ d' => d.Prepares index d' :=
    (Converting.warn_prepares _).follow (.refl d) fun _ h => .pure h
  unfold attachHost
  extract_lets isPlain
  split
  · split
    · split
      · exact (Converting.warn_prepares _).follow (.refl d) fun _ h => .pure h
      · exact .pure (.refl d)
    · exact noRoot
  · exact noRoot

theorem hostRef_runs {m : ComponentModel} {ctx : RecastContext} {x : Additions} {d : Draft}
    {elementRefs : Table String} (h : Filled index m.toModelBase ctx x d) (none : x.host = []) :
    Runs (hostRef m elementRefs) d fun _ d' => ∃ host,
      Filled index m.toModelBase ctx { x with host } d' ∧
        (host = [] ∨ host = [madeHost] ∧ elementRefs = []) := by
  have same : Filled index m.toModelBase ctx { x with host := [] } d := by
    rw [← none]
    exact h
  unfold hostRef
  split
  · exact .pure ⟨[], same, .inl rfl⟩
  · rename_i injected
    split
    · have w := h.body
      have written : Written m.toModelBase ctx { x with host := [madeHost] }
          { d.body with refs := d.body.refs ++ [madeHost] } :=
        { w with refs := by simp [w.refs, none] }
      have filled : Filled index m.toModelBase ctx { x with host := [madeHost] }
          { d with body := { d.body with refs := d.body.refs ++ [madeHost] } } :=
        ⟨h.imports, written⟩
      have nobody : elementRefs = [] := by
        simpa [Table.values] using injected
      refine .modify_bind ?_
      exact (Converting.react_prepares _).follow (.refl _) fun d' next =>
        .pure ⟨[madeHost], filled.prepares next, .inr ⟨rfl, nobody⟩⟩
    · exact .pure ⟨[], same, .inl rfl⟩

/-- The template adds refs, awaited values and memos under new names. -/
theorem convertTemplate_fills {m : ModelBase} {ctx : RecastContext} {d : Draft} (env : TemplateEnv)
    (sound : SymbolIndex.Sound ds env.index) (refs : Model.RefsLinked env.index env.refs)
    {template : List Template.Node} (linked : Model.AllLinked env.index template)
    (h : Filled env.index m ctx {} d) :
    Runs (convertTemplate env template) d fun _ d' => ∃ held awaited remembered,
      Filled env.index m ctx { held, awaited, remembered } d' ∧
      (∀ name ∈ Draft.madeNames held awaited remembered,
        name ∉ env.names.members ++ env.names.outputs.values ++ m.refs.map (·.name)) ∧
      (Draft.madeNames held awaited remembered).Nodup ∧ ∀ r ∈ held, r.initial = some "null" := by
  refine (convertTemplate_runs sound refs linked d).mono fun _ d' steps => ?_
  obtain ⟨held, awaited, remembered, grows⟩ := Draft.Grows.ofSteps steps
  obtain ⟨uses, body⟩ := grows.body
  have w := h.body
  have written : Written m ctx { held, awaited, remembered } d'.body := by
    rw [body]
    exact { w with
      refs := by simp [Draft.forTemplate, w.refs]
      derived := by simp [Draft.forTemplate, w.derived]
      memos := by simp [Draft.forTemplate, w.memos] }
  refine ⟨held, awaited, remembered, ⟨grows.known h.imports, written⟩, ?_, grows.nodup, grows.empty⟩
  have names : d.body.refs.map (·.name) = m.refs.map (·.name) := by
    simp [w.refs, Function.comp_def]
  simpa [Draft.forTemplate, names] using grows.free

theorem Model.Models.services {d : DeclBase} {mutated skip : List String} {m : ModelBase}
    (h : Model.Models index d mutated skip m) :
    ∀ dep ∈ m.dependencies, dep.kind = .service → Model.TargetsService index dep := by
  have all : List.Forall₂ (fun i _ => (i.kind = .service → Model.TargetsService index i) ∧ True)
      m.dependencies d.dependencies :=
    h.dependencies.flip.imp fun _ _ resolved => ⟨resolved.service, trivial⟩
  exact ((List.forall₂_and_left _ _).mp all).1

/-- A component is drafted: it has its props, and its draft is filled. -/
def DraftsComponent (index : SymbolIndex) (order : NameOrder) (m : ComponentModel) (r : List PropField × Option Markup)
    (d : Draft) : Prop :=
  r.1 = componentProps m ∧
    ∃ x, Filled index m.toModelBase (componentNames order m) x d ∧ ComponentAdditions order m x

theorem draftComponent_runs (sound : SymbolIndex.Sound ds index) {decl : ComponentDecl}
    {m : ComponentModel} (of : Model.ComponentOf index decl m) :
    Runs (draftComponent index order m) {} (DraftsComponent index order m) := by
  obtain ⟨mutated, base⟩ := of.base
  have carried : (Imports.carry index m.sourcePath [] m.sourceImports).Known index :=
    Imports.Known.carry (fun _ h => by cases h) _ _
  refine .modify_bind ?_
  extract_lets texts props children elementRefs names env closing afterTemplate rest
  have closed (markup : Option Markup) {x : Additions} {d : Draft}
      (filled : Filled index m.toModelBase (componentNames order m) x d) (found : x.found = [])
      (extra : x.extra = [])
      (additions : ∀ found extra, Injects elementRefs (d.body.refs.map (·.name)) m.toModelBase
        { x with found, extra } → ComponentAdditions order m { x with found, extra }) :
      Runs (closing markup) d (DraftsComponent index order m) := by
    refine (filled.inject sound found extra elementRefs [] base.services).bind ?_
    rintro _ d' ⟨found, extra, filled, injects⟩
    refine .get_bind ?_
    dsimp only
    split
    · exact filled.react_bind fun d' filled =>
        .pure ⟨by simp [props, children, componentProps, texts], _, filled, additions _ _ injects⟩
    · exact .pure ⟨by simp [props, children, componentProps, texts], _, filled, additions _ _ injects⟩
  have hosted (markup : Option Markup) {held : List RefDecl} {awaited : List ConstDecl}
      {remembered : List MemoDecl} {d : Draft}
      (filled : Filled index m.toModelBase (componentNames order m) { held, awaited, remembered } d)
      (free : ∀ name ∈ Draft.madeNames held awaited remembered,
        name ∉ names.members ++ names.outputs.values ++ m.refs.map (·.name))
      (nodup : (Draft.madeNames held awaited remembered).Nodup)
      (empty : ∀ r ∈ held, r.initial = some "null") :
      Runs (afterTemplate markup) d (DraftsComponent index order m) := by
    refine (hostRef_runs filled rfl).bind ?_
    rintro host d₁ ⟨made, filled, only⟩
    refine (@Members.listenerEffects_runs index _ _ _ d₁).bind fun listeners d₂ prepared => ?_
    have filled := (filled.prepares prepared).effects (· ++ listeners)
    refine .modify_bind (.get_bind ?_)
    extract_lets attach
    have attached {d : Draft}
        (filled : Filled index m.toModelBase (componentNames order m)
          { held, host := made, awaited, remembered } d) :
        Runs (attach ()) d (DraftsComponent index order m) := by
      have additions (found : List (List String × List RefDecl)) (extra : List String)
          (injects : Injects elementRefs (d.body.refs.map (·.name)) m.toModelBase
            { held, host := made, awaited, remembered, found, extra }) :
          ComponentAdditions order m { held, host := made, awaited, remembered, found, extra } := by
        refine ⟨rfl, free, nodup, empty, only, ?_⟩
        simpa [filled.body.refs, Function.comp_def] using injects
      unfold attach
      split
      · refine (@attachHost_runs index _ _ _ d).bind fun markup d' prepared => ?_
        refine closed markup (filled.prepares prepared) rfl rfl fun found extra injects => ?_
        exact additions found extra (prepared.body ▸ injects)
      · rw [pure_bind]
        exact closed markup filled rfl rfl additions
    split
    · exact filled.react_bind fun d filled => attached filled
    · exact attached filled
  have drafted {d : Draft} (known : d.imports.Known index) :
      Runs (rest ()) d (DraftsComponent index order m) := by
    refine (Filled.start known).bind fun _ d₁ members => ?_
    split
    · rw [pure_bind]
      exact hosted none members (by simp [Draft.madeNames]) .nil (by simp)
    · refine (convertTemplate_fills env sound of.templateRefs of.template members).bind ?_
      rintro markup d₂ ⟨held, awaited, remembered, filled, free, nodup, empty⟩
      exact hosted markup filled free nodup empty
  split
  · refine .modify_bind (drafted ?_)
    exact carried.reactType _
  · exact drafted carried

/-- A component becomes one module, followed by its stylesheet if it has styles. -/
structure WritesComponent (index : SymbolIndex) (order : NameOrder) (m : ComponentModel) (c : ComponentArtifact) :
    Prop where
  ref : c.ref = .component m.name m.sourcePath
  props : c.props = componentProps m
  imports : ∀ spec ∈ c.imports, ∀ t ∈ spec.target,
    t.Known index ∨ !m.styles.isEmpty ∧ t = .style m.name m.sourcePath
  body : ∃ x, Written m.toModelBase (componentNames order m) x c.body ∧ ComponentAdditions order m x

def styleModules (m : ComponentModel) : List Artifact :=
  if m.styles.isEmpty then []
  else [.style { ref := .style m.name m.sourcePath, name := Naming.componentName m.name
                 styles := m.styles }]

theorem convertComponent_ensures (sound : SymbolIndex.Sound ds index) {decl : ComponentDecl}
    {m : ComponentModel} (of : Model.ComponentOf index decl m) :
    (convertComponent index order m).Ensures fun as =>
      ∃ c, as = .component c :: styleModules m ∧ WritesComponent index order m c := by
  unfold convertComponent
  refine Noting.Ensures.bind (draftComponent_runs sound of) ?_
  rintro ⟨⟨props, markup⟩, d⟩ ⟨given, x, filled, additions⟩
  dsimp -zeta only
  extract_lets name style styled component
  refine .pure ⟨component, ?_, rfl, given, ?_, x, filled.body, additions⟩
  · simp [styleModules, styled, style, name]
  · intro spec hs t ht
    unfold component at hs
    dsimp only at hs
    split at hs
    · rename_i styled
      rcases Imports.add_target hs with own | ⟨old, mem, same⟩
      · rw [own] at ht
        exact .inr ⟨styled, (Option.some.inj ht).symm⟩
      · exact .inl (filled.imports old mem t (same ▸ ht))
    · exact .inl (filled.imports spec hs t ht)

/-! ### Services -/

def serviceNames (order : NameOrder) (m : ServiceModel) : RecastContext :=
  Members.context order m.toModelBase [] [] []

def trackedState (ms : List MethodModel) : List StateDecl :=
  ms.flatMap fun m =>
    [{ name := loadingName m.name, setter := Naming.setterName (loadingName m.name)
       initial := some "false", type := some "boolean" },
     { name := errorName m.name, setter := Naming.setterName (errorName m.name)
       initial := some "null", type := some "unknown" }]

theorem modifyLast_names {name : String} {f : FunctionDecl → FunctionDecl}
    (same : ∀ x, (f x).name = x.name) (fs : List FunctionDecl) :
    (modifyLast name f fs).map (·.name) = fs.map (·.name) := by
  have go (fs : List FunctionDecl) : (modifyLast.go name f fs).map (·.name) = fs.map (·.name) := by
    induction fs with
    | nil => rfl
    | cons x xs ih =>
        unfold modifyLast.go
        split
        · simp [same]
        · simp [ih]
  unfold modifyLast
  rw [List.map_reverse, go, ← List.map_reverse, List.reverse_reverse]

theorem trackMethods_written {m : ModelBase} {ctx : RecastContext} (ms : List MethodModel) :
    ∀ {x : Additions} {b : FunctionBody}, Written m ctx x b →
      Written m ctx { x with tracked := x.tracked ++ trackedState ms } (ms.foldl trackMethod b) := by
  induction ms with
  | nil =>
      intro x b w
      simpa [trackedState] using w
  | cons method ms ih =>
      intro x b w
      have one : Written m ctx { x with tracked := x.tracked ++ trackedState [method] }
          (trackMethod b method) :=
        { w with
          state := by simp [trackMethod, trackedState, w.state]
          functions := by
            rw [← w.functions]
            apply modifyLast_names
            intro f
            rfl }
      simpa [trackedState] using ih one

structure WritesService (index : SymbolIndex) (order : NameOrder) (m : ServiceModel) (h : HookArtifact) : Prop where
  ref : h.ref = .service m.name m.sourcePath
  imports : Imports.Known index h.imports
  body : ∃ found extra, Written m.toModelBase (serviceNames order m)
      { found, extra, tracked := trackedState (m.methods.filter (·.asynchronous)) } h.body ∧
    Injects [] (m.refs.map (·.name)) m.toModelBase { found, extra }

theorem convertService_ensures (sound : SymbolIndex.Sound ds index) {decl : ServiceDecl}
    {m : ServiceModel} (of : Model.Models index decl.toDeclBase [] [] m.toModelBase) :
    (convertService index order m).Ensures fun as => ∃ h, as = [.hook h] ∧ WritesService index order m h := by
  have carried : (Imports.carry index m.sourcePath [] m.sourceImports).Known index :=
    Imports.Known.carry (fun _ h => by cases h) _ _
  unfold convertService
  extract_lets tracked names hooks work returns
  have drafted : Runs work {} fun _ d => ∃ found extra,
      Filled index m.toModelBase names { found, extra, tracked := trackedState tracked } d ∧
        Injects [] (m.refs.map (·.name)) m.toModelBase { found, extra } := by
    refine .modify_bind ((Filled.start carried).bind fun _ d₁ members => ?_)
    have followed : Filled index m.toModelBase names { tracked := trackedState tracked }
        { d₁ with body := tracked.foldl trackMethod d₁.body } :=
      ⟨members.imports, by simpa using trackMethods_written tracked members.body⟩
    have injected {d : Draft}
        (filled : Filled index m.toModelBase names { tracked := trackedState tracked } d) :
        Runs (Members.dependencyHooks m.toModelBase [] []) d fun _ d => ∃ found extra,
          Filled index m.toModelBase names { found, extra, tracked := trackedState tracked } d ∧
            Injects [] (m.refs.map (·.name)) m.toModelBase { found, extra } := by
      refine (filled.inject sound rfl rfl [] [] of.services).mono ?_
      rintro _ d' ⟨found, extra, filled', injects⟩
      refine ⟨found, extra, filled', ?_, injects.extra⟩
      simpa [filled.body.refs, Function.comp_def] using injects.found
    refine .modify_bind ?_
    dsimp only
    split
    · exact followed.react_bind fun _ filled => injected filled
    · exact injected followed
  refine Noting.Ensures.bind drafted ?_
  rintro ⟨_, d⟩ ⟨found, extra, filled, injects⟩
  exact .pure ⟨_, rfl, rfl, filled.imports, found, extra, filled.body, injects⟩

/-! ### Directives -/

def directiveNames (order : NameOrder) (m : DirectiveModel) : RecastContext :=
  Members.context order m.toModelBase (m.inputs.map (·.name)) (outputCallbacks m.outputs)
    (injectedElements m.toModelBase fun _ => directiveHost)

/-- The members of a directive are written, with nothing but its dependencies besides them. -/
def WritesDirective (order : NameOrder) (m : DirectiveModel) (b : FunctionBody) : Prop :=
  ∃ found extra, Written m.toModelBase (directiveNames order m) { found, extra } b ∧
    Injects (injectedElements m.toModelBase fun _ => directiveHost)
      (directiveHost :: m.refs.map (·.name)) m.toModelBase { found, extra }

theorem hostBindingsEffect_runs (names : RecastContext) (bindings : List HostBinding) (d : Draft) :
    Runs (hostBindingsEffect names bindings) d fun _ d' => d.Prepares index d' := by
  unfold hostBindingsEffect
  split
  · exact .pure (.refl d)
  · refine (Runs.prepares_mapM (fun b _ d' => ?_) d).bind fun _ _ h => .pure h
    exact (Converting.expression_runs _ _ _ d').bind fun _ _ h => .pure h

theorem draftDirective_runs (sound : SymbolIndex.Sound ds index) {decl : DirectiveDecl}
    {m : DirectiveModel} (of : Model.DirectiveOf index decl m) {d : Draft}
    (known : d.imports.Known index) :
    Runs (draftDirective order m) d fun _ d' => d'.imports.Known index ∧ WritesDirective order m d'.body := by
  unfold draftDirective
  extract_lets elementRefs names hooks
  have injected {d : Draft} (filled : Filled index m.toModelBase names {} d) :
      Runs (hooks ()) d fun _ d' => d'.imports.Known index ∧ WritesDirective order m d'.body := by
    refine (filled.inject sound rfl rfl elementRefs [directiveHost] of.base.services).mono ?_
    rintro _ d' ⟨found, extra, filled', injects⟩
    refine ⟨filled'.imports, found, extra, filled'.body, ?_, injects.extra⟩
    simpa [filled.body.refs, Function.comp_def] using injects.found
  refine (Filled.start known).bind fun _ d₁ members => ?_
  refine (@Members.listenerEffects_runs index _ _ _ d₁).bind fun listeners d₂ first => ?_
  refine (@hostBindingsEffect_runs index _ _ d₂).bind fun bindings d₃ second => ?_
  have filled := ((members.prepares first).prepares second).effects (· ++ listeners ++ bindings)
  refine .modify_bind (.get_bind ?_)
  split
  · exact filled.react_bind fun _ filled => injected filled
  · exact injected filled

theorem directiveHook_ensures (sound : SymbolIndex.Sound ds index) {decl : DirectiveDecl}
    {m : DirectiveModel} (of : Model.DirectiveOf index decl m) :
    (directiveHook index order m).Ensures fun h => h.ref = directiveRef m ∧
      Imports.Known index h.imports ∧ h.params.map (·.name) = [directiveHost] ∧
        h.options = directiveFields m ∧ WritesDirective order m h.body := by
  have carried : (Imports.carry index m.sourcePath [] m.sourceImports).Known index :=
    Imports.Known.carry (fun _ h => by cases h) _ _
  unfold directiveHook
  extract_lets work
  have drafted : Runs work {} fun _ d => d.imports.Known index ∧ WritesDirective order m d.body :=
    .modify_bind (draftDirective_runs sound of (carried.reactType _))
  refine Noting.Ensures.bind drafted ?_
  rintro ⟨_, d⟩ ⟨known, written⟩
  exact .pure ⟨rfl, known, rfl, rfl, written⟩

/-- The wrapper declares the ref to the host before all others. -/
theorem directiveWrapper_ensures (sound : SymbolIndex.Sound ds index) {decl : DirectiveDecl}
    {m : DirectiveModel} (of : Model.DirectiveOf index decl m) :
    (directiveWrapper index order m).Ensures fun c => c.ref = directiveRef m ∧
      Imports.Known index c.imports ∧ c.props = directiveFields m ∧
        ∃ b, WritesDirective order m b ∧ c.body = { b with refs := madeHost :: b.refs } := by
  have carried : (Imports.carry index m.sourcePath [] m.sourceImports).Known index :=
    Imports.Known.carry (fun _ h => by cases h) _ _
  unfold directiveWrapper
  extract_lets work
  have drafted : Runs work {} fun _ d => d.imports.Known index ∧ WritesDirective order m d.body :=
    .modify_bind (draftDirective_runs sound of ((carried.reactType _).fromPackage _ _))
  refine Noting.Ensures.bind drafted ?_
  rintro ⟨_, d⟩ ⟨known, written⟩
  exact .pure ⟨rfl, known, rfl, d.body, written, rfl⟩

end ReactMigration
