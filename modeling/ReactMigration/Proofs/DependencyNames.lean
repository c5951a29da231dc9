import ReactMigration.Proofs.ConstructorStatements
import ReactMigration.Proofs.RenderOrder
import ReactMigration.Proofs.ScopeNames

/-!
The names of injected classes in a generated function.

Services, classes that nothing provides, the client for requests, the host element and framework
classes without a counterpart are declared under their own name.  What recasting is to remove is not
declared, even if something of it is left: the only other calls give access to the router.
-/

namespace ReactMigration

open ReactMigration.Text

variable {index : SymbolIndex} {order : NameOrder} {ds : List Declaration}

/-! ### Functions -/

mutual

/-- The code in a tree of markup. -/
def Markup.codes : Markup → List String
  | .element _ attrs children => attrs.filterMap (·.value) ++ codesIn children
  | .text _ => []
  | .expression code => [code]
  | .fragment children key => key.toList ++ codesIn children
  | .conditional condition shown otherwise => condition :: (codes shown ++ codesOf otherwise)
  | .loop iterable _ _ body => iterable :: codes body
  | .renderProp _ attrs _ body => attrs.filterMap (·.value) ++ codes body
  | .remark _ => []

def Markup.codesIn : List Markup → List String
  | [] => []
  | m :: ms => codes m ++ codesIn ms

def Markup.codesOf : Option Markup → List String
  | none => []
  | some m => codes m

end

/-- Initial values, functions, effects and what is computed. -/
def FunctionBody.codes (b : FunctionBody) : List String :=
  b.state.filterMap (·.initial) ++ b.refs.filterMap (·.initial) ++ b.constants.map (·.value) ++
    b.functions.map (·.body) ++ b.derived.map (·.value) ++ b.memos.map (·.expression) ++
    b.effects.map (·.body) ++ b.effects.map (·.cleanup)

/-- What a module's function receives, does and shows. -/
structure GeneratedFunction where
  params : List String
  body : FunctionBody
  markup : Option Markup := none

def Artifact.function? : Artifact → Option GeneratedFunction
  | .component c => some { params := c.props.map (·.boundName), body := c.body, markup := c.markup }
  | .hook h => some { params := h.params.map (·.name) ++ h.options.map (·.boundName), body := h.body }
  | _ => none

/-- A hook call or a ref declares the name. -/
def FunctionBody.Holds (b : FunctionBody) (name : String) : Prop :=
  (∃ call ∈ b.hookCalls, Members.Declares call name) ∨ name ∈ b.refs.map (·.name)

namespace GeneratedFunction

/-- The name is a parameter or a variable. -/
def Declares (f : GeneratedFunction) (name : String) : Prop :=
  name ∈ f.params ∨ name ∈ f.body.variables ∨ f.body.Holds name

def Mentions (f : GeneratedFunction) (name : String) : Prop :=
  ∃ code ∈ f.body.codes ++ Markup.codesOf f.markup, (mention name).occurs code = true

/-- If the function mentions the dependency, it declares it, or a remark names it or its class. -/
def Accounts (f : GeneratedFunction) (noted : List Diagnostic) (dep : Injected) : Prop :=
  f.Mentions dep.name → f.Declares dep.name ∨
    ∃ d ∈ noted, dep.name.toList <:+: d.message.toList ∨ dep.typeName.toList <:+: d.message.toList

end GeneratedFunction

/-! ### Dependencies -/

/-- Framework classes that are neither declared nor reported. -/
def overlookedProviders : List String :=
  ["Router", "ActivatedRoute", "Renderer2", "ChangeDetectorRef", "TemplateRef", "ViewContainerRef",
    "KeyValueDiffers", "IterableDiffers"]

/-- Nothing is declared for the dependency; the host element has no name of its own in a directive. -/
def Overlooked (u : UnitModel) (dep : Injected) : Prop :=
  dep.kind = .builtin ∧ (dep.typeName ∈ overlookedProviders ∨
    dep.typeName = "ElementRef" ∧ ∃ m, u = .directive m)

theorem provider_overlooked {typeName : String} (provided : Framework.isProvider typeName = true)
    (other : typeName ∉ Members.namedProviders) : typeName ∈ overlookedProviders := by
  simp only [Members.namedProviders, Framework.unsupportedProviders, List.mem_cons, List.not_mem_nil,
    or_false, not_or] at other
  obtain ⟨client, element, builder, zone, sanitizer, title⟩ := other
  simp only [Framework.isProvider, Framework.providers, Table.has, List.any_cons, List.any_nil,
    Bool.or_eq_true, beq_iff_eq, Bool.false_eq_true, or_false] at provided
  simp only [overlookedProviders, List.mem_cons, List.not_mem_nil, or_false]
  grind

theorem Model.Models.provided {d : DeclBase} {mutated skip : List String} {m : ModelBase}
    (h : Model.Models index d mutated skip m) :
    ∀ dep ∈ m.dependencies, dep.kind = .builtin → Framework.isProvider dep.typeName = true := by
  intro dep mem
  obtain ⟨given, -, resolves⟩ := mem_right_of_forall₂ h.dependencies.flip mem
  exact resolves.builtin

/-- What stands for a dependency has its name, unless it is one of those to be removed. -/
theorem Members.Provides.holds {elementRefs : Table String} {present : List String} {dep : Injected}
    {r : List String × List RefDecl} (h : Provides elementRefs present dep r)
    (standing : dep.kind = .builtin → dep.typeName ∈ Members.namedProviders)
    (own : dep.kind = .builtin → dep.typeName = "ElementRef" →
      (elementRefs.get? dep.name).getD dep.name = dep.name) :
    (∃ call ∈ r.1, Declares call dep.name) ∨ dep.name ∈ r.2.map (·.name) ∨
      dep.kind = .builtin ∧ dep.typeName = "ElementRef" ∧ dep.name ∈ present := by
  cases h with
  | value _ declares => exact .inl ⟨_, List.mem_singleton_self _, declares⟩
  | router kind other _ => exact absurd (standing kind) other
  | element kind typeName named _ =>
      rw [own kind typeName] at named
      exact .inr (.inl (by simp [named]))
  | given kind typeName taken =>
      rw [own kind typeName] at taken
      exact .inr (.inr ⟨kind, typeName, taken⟩)

theorem overlooked_nameless : ∀ typeName ∈ overlookedProviders, typeName ∉ Members.namedProviders := by
  decide

/-- The call gives access to the router or declares a dependency that is not overlooked. -/
def CallsFor (u : UnitModel) (dependencies : List Injected) (call : String) : Prop :=
  call ∈ Members.routerCalls ∨ ∃ dep ∈ dependencies, ¬ Overlooked u dep ∧ Members.Declares call dep.name

theorem Members.Provides.callsFor {elementRefs : Table String} {present : List String} {dep : Injected}
    {r : List String × List RefDecl} (h : Provides elementRefs present dep r) {dependencies : List Injected}
    (mem : dep ∈ dependencies) (u : UnitModel) : ∀ call ∈ r.1, CallsFor u dependencies call := by
  intro call listed
  cases h with
  | value standing declares =>
      rw [List.mem_singleton.mp listed]
      refine .inr ⟨dep, mem, ?_, declares⟩
      rintro ⟨builtin, overlooked | ⟨element, -⟩⟩
      · exact overlooked_nameless _ overlooked (standing builtin).1
      · exact (standing builtin).2 element
  | router _ _ all => exact .inl (all call listed)
  | element _ _ _ _ => cases listed
  | given _ _ _ => cases listed

theorem Written.callsFor {m : ModelBase} {ctx : RecastContext} {x y : Additions} {b : FunctionBody}
    {elementRefs : Table String} {present : List String} (w : Written m ctx x b)
    (injects : Injects elementRefs present m y) (found : y.found = x.found) (extra : y.extra = x.extra)
    (u : UnitModel) : ∀ call ∈ b.hookCalls, CallsFor u m.dependencies call := by
  intro call listed
  rw [w.hookCalls, ← found, ← extra, List.mem_append, List.mem_flatMap] at listed
  rcases listed with ⟨r, here, given⟩ | more
  · obtain ⟨dep, mem, provides⟩ := mem_right_of_forall₂ injects.found.flip here
    exact provides.callsFor mem u call given
  · rcases injects.extra with none | navigates
    · simp [none] at more
    · rw [navigates, List.mem_singleton] at more
      exact .inl (by simp [more, Members.routerCalls])

/-- The host element is among the refs, by the name of its dependency. -/
theorem Written.holds {m : ModelBase} {ctx : RecastContext} {x y : Additions} {b : FunctionBody}
    {elementRefs : Table String} {present : List String} (w : Written m ctx x b)
    (injects : Injects elementRefs present m y) (found : y.found = x.found) {dep : Injected}
    (mem : dep ∈ m.dependencies)
    (standing : dep.kind = .builtin → dep.typeName ∈ Members.namedProviders)
    (element : dep.kind = .builtin → dep.typeName = "ElementRef" →
      (elementRefs.get? dep.name).getD dep.name = dep.name ∧ present ⊆ b.refs.map (·.name)) :
    b.Holds dep.name := by
  obtain ⟨r, listed, provides⟩ := mem_right_of_forall₂ injects.found mem
  rw [found] at listed
  rcases provides.holds standing fun kind typeName => (element kind typeName).1 with
    ⟨call, here, declares⟩ | ref | ⟨kind, typeName, taken⟩
  · refine .inl ⟨call, ?_, declares⟩
    rw [w.hookCalls]
    exact List.mem_append_left _ (List.mem_flatMap.mpr ⟨r, listed, here⟩)
  · obtain ⟨decl, here, named⟩ := List.mem_map.mp ref
    refine .inr (List.mem_map.mpr ⟨decl, ?_, named⟩)
    rw [w.refs]
    exact List.mem_append_left _ (List.mem_flatMap.mpr ⟨r, listed, here⟩)
  · exact .inr ((element kind typeName).2 taken)

/-! ### Units -/

/-- All dependencies are declared but those that are overlooked, for which no hook is called but those of the router. -/
def DeclaresInjected (u : UnitModel) (dependencies : List Injected) (as : List Artifact) : Prop :=
  ∃ f, as.head?.bind Artifact.function? = some f ∧
    (∀ dep ∈ dependencies, ¬ Overlooked u dep → f.Declares dep.name) ∧
    ∀ call ∈ f.body.hookCalls, CallsFor u dependencies call

theorem standing_of_not_overlooked {u : UnitModel} {d : DeclBase} {mutated skip : List String} {m : ModelBase}
    (of : Model.Models index d mutated skip m) {dep : Injected} (mem : dep ∈ m.dependencies)
    (seen : ¬ Overlooked u dep) (builtin : dep.kind = .builtin) : dep.typeName ∈ Members.namedProviders := by
  by_contra other
  exact seen ⟨builtin, .inl (provider_overlooked (of.provided dep mem builtin) other)⟩

theorem convertComponent_declares (sound : SymbolIndex.Sound ds index) {decl : ComponentDecl}
    {m : ComponentModel} (of : Model.ComponentOf index decl m) :
    (convertComponent index order m).Ensures (DeclaresInjected (.component m) m.dependencies) := by
  obtain ⟨mutated, models⟩ := of.base
  refine (convertComponent_ensures sound of).mono ?_
  rintro as ⟨c, rfl, writes⟩
  obtain ⟨x, w, additions⟩ := writes.body
  refine ⟨_, rfl, fun dep mem seen => .inr (.inr ?_), w.callsFor additions.injects rfl rfl _⟩
  have standing := standing_of_not_overlooked models mem seen
  refine w.holds additions.injects rfl mem standing fun _ _ => ⟨injectedElements_own _ _, ?_⟩
  intro name listed
  rw [w.refs]
  simp only [List.map_append, List.map_map, Function.comp_def, RefCell.decl_name, List.mem_append] at listed ⊢
  exact .inr listed

theorem convertService_declares (sound : SymbolIndex.Sound ds index) {decl : ServiceDecl}
    {m : ServiceModel} (of : Model.Models index decl.toDeclBase [] [] m.toModelBase) :
    (convertService index order m).Ensures (DeclaresInjected (.service m) m.dependencies) := by
  refine (convertService_ensures sound of).mono ?_
  rintro as ⟨h, rfl, writes⟩
  obtain ⟨found, extra, w, injects⟩ := writes.body
  refine ⟨_, rfl, fun dep mem seen => .inr (.inr ?_), w.callsFor injects rfl rfl _⟩
  have standing := standing_of_not_overlooked of mem seen
  refine w.holds injects rfl mem standing fun _ _ => ⟨rfl, ?_⟩
  intro name listed
  rw [w.refs, List.map_append, List.append_nil, List.append_nil, List.map_map]
  simp only [Function.comp_def, RefCell.decl_name, List.mem_append]
  exact .inr listed

/-- A dependency on the host element is not meant to keep its name in a directive. -/
theorem WritesDirective.holds {decl : DirectiveDecl} {m : DirectiveModel} (of : Model.DirectiveOf index decl m)
    {b : FunctionBody} (writes : WritesDirective order m b) {dep : Injected} (mem : dep ∈ m.dependencies)
    (seen : ¬ Overlooked (.directive m) dep) : b.Holds dep.name := by
  obtain ⟨found, extra, w, injects⟩ := writes
  refine w.holds injects rfl mem (standing_of_not_overlooked of.base mem seen) fun kind typeName => ?_
  exact absurd ⟨kind, .inr ⟨typeName, m, rfl⟩⟩ seen

theorem WritesDirective.callsFor {m : DirectiveModel} {b : FunctionBody} (writes : WritesDirective order m b) :
    ∀ call ∈ b.hookCalls, CallsFor (.directive m) m.dependencies call := by
  obtain ⟨found, extra, w, injects⟩ := writes
  exact w.callsFor injects rfl rfl _

theorem convertDirective_declares (sound : SymbolIndex.Sound ds index) {decl : DirectiveDecl}
    {m : DirectiveModel} (of : Model.DirectiveOf index decl m) (plain : m.directiveKind ≠ .structural) :
    (convertDirective index order m).Ensures (DeclaresInjected (.directive m) m.dependencies) := by
  unfold convertDirective
  rw [if_neg (by simpa using plain)]
  split
  · refine (directiveWrapper_ensures sound of).bind fun c made => .pure ?_
    obtain ⟨-, -, -, b, writes, body⟩ := made
    refine ⟨_, rfl, fun dep mem seen => ?_, by rw [body]; exact writes.callsFor⟩
    rcases writes.holds of mem seen with called | ref
    · exact .inr (.inr (.inl (by rwa [body])))
    · refine .inr (.inr (.inr ?_))
      rw [body]
      exact List.mem_cons_of_mem _ ref
  · refine (directiveHook_ensures sound of).bind fun h made => .pure ?_
    obtain ⟨-, -, -, -, writes⟩ := made
    exact ⟨_, rfl, fun dep mem seen => .inr (.inr (writes.holds of mem seen)), writes.callsFor⟩

/-- The function of a component, a service or an attribute directive declares all its dependencies but those that are
overlooked, and calls no hook for those but the router's. -/
theorem dependencies_declared (ds : List Declaration) (units : List String) {d : Declaration} {u : UnitModel}
    {m : ModelBase} {as : List Artifact} {s s₁ s₂ : Sink}
    (built : (Model.build (SymbolIndex.build ds units) d).run.run s = (.ok u, s₁))
    (hooked : Model.hooked? u = some m)
    (converted : (convertOwn (SymbolIndex.build ds units) order u).run.run s₁ = (.ok as, s₂)) :
    DeclaresInjected u m.dependencies as := by
  have sound := (SymbolIndex.build_sound ds units).1
  have kinds := (Model.build_ensures sound d s).2 u (by rw [built])
  have ended : ((convertOwn (SymbolIndex.build ds units) order u).run.run s₁).1 = .ok as := by rw [converted]
  cases kinds with
  | component of =>
      cases hooked
      exact (convertComponent_declares sound of s₁).2 as ended
  | service of =>
      cases hooked
      exact (convertService_declares sound of s₁).2 as ended
  | @directive decl m' of =>
      change (if m'.directiveKind = .structural then none else some m'.toModelBase) = some m at hooked
      split at hooked
      · cases hooked
      · rename_i plain
        cases hooked
        exact (convertDirective_declares sound of plain s₁).2 as ended
  | _ => cases hooked

/-! ### Components without a template -/

def bareUnit (dependencies : List Dependency) (methods : List MethodDecl) : ComponentDecl :=
  { name := "A", sourcePath := "a.ts", template := some "", dependencies, methods }

/-- The model and the component, each with the remarks made so far. -/
def bareConversion (d : ComponentDecl) : Option (ComponentModel × Sink × ComponentArtifact × Sink) :=
  match (Model.build (SymbolIndex.build [] []) (.component d)).run.run { unit := "a.ts" } with
  | (.ok (.component m), s₁) =>
      match (convertOwn (SymbolIndex.build [] []) .written (.component m)).run.run s₁ with
      | (.ok [.component c], s₂) => some (m, s₁, c, s₂)
      | _ => none
  | _ => none

theorem bareConversion_runs {d : ComponentDecl} {m : ComponentModel} {c : ComponentArtifact} {s₁ s₂ : Sink}
    (converts : bareConversion d = some (m, s₁, c, s₂)) :
    (Model.build (SymbolIndex.build [] []) (.component d)).run.run { unit := "a.ts" } = (.ok (.component m), s₁) ∧
      (convertOwn (SymbolIndex.build [] []) .written (.component m)).run.run s₁ = (.ok [.component c], s₂) := by
  unfold bareConversion at converts
  split at converts
  · rename_i built
    split at converts
    · rename_i converted
      cases converts
      exact ⟨built, converted⟩
    · cases converts
  · cases converts

def zoneUnit : ComponentDecl :=
  bareUnit [{ name := "zone", typeName := "NgZone" }, { name := "log", typeName := "Log" },
    { name := "http", typeName := "HttpClient" }, { name := "host", typeName := "ElementRef" }] []

theorem dependencies_declared_zone : ∃ m s₁ c s₂, bareConversion zoneUnit = some (m, s₁, c, s₂) ∧
    (∀ dep ∈ m.dependencies, ¬ Overlooked (.component m) dep) ∧
    DeclaresInjected (.component m) m.dependencies [.component c] := by
  have computed : ((bareConversion zoneUnit).any fun r =>
      r.1.dependencies.all fun dep => !overlookedProviders.contains dep.typeName) = true := by
    decide +kernel
  obtain ⟨⟨m, s₁, c, s₂⟩, converts, seen⟩ := (Option.any_eq_true _ _).mp computed
  obtain ⟨built, converted⟩ := bareConversion_runs converts
  refine ⟨m, s₁, c, s₂, converts, ?_, dependencies_declared [] [] built rfl converted⟩
  rintro dep mem ⟨-, listed | ⟨-, _, other⟩⟩
  · have := List.all_eq_true.mp seen dep mem
    simp [listed] at this
  · cases other

/-- A component that hands on what is injected. -/
def handingUnit (typeName : String) : ComponentDecl :=
  bareUnit [{ name := "it", typeName }] [{ name := "show", body := "open(this.it);" }]

/-- Every class that is overlooked can be left in the function, undeclared and without a remark. -/
theorem overlooked_unaccounted {typeName : String} (listed : typeName ∈ overlookedProviders) :
    ∃ m s₁ c s₂ f, bareConversion (handingUnit typeName) = some (m, s₁, c, s₂) ∧
      Artifact.function? (.component c) = some f ∧ ∃ dep ∈ m.dependencies, ¬ f.Accounts s₂.items dep := by
  have computed : (overlookedProviders.all fun typeName => (bareConversion (handingUnit typeName)).any fun r =>
      decide (r.1.dependencies = [{ name := "it", typeName, kind := .builtin }] ∧ r.2.2.1.props = [] ∧
        r.2.2.1.body = { functions := [{ name := "show", body := "open(it);" }] } ∧ r.2.2.2.items = [])) = true := by
    decide +kernel
  obtain ⟨⟨m, s₁, c, s₂⟩, converts, facts⟩ := (Option.any_eq_true _ _).mp (List.all_eq_true.mp computed _ listed)
  obtain ⟨dependencies, props, body, remarks⟩ := of_decide_eq_true facts
  dsimp only at dependencies props body remarks
  have mentioned : (mention "it").occurs "open(it);" = true := by decide +kernel
  refine ⟨m, s₁, c, s₂, _, converts, rfl, { name := "it", typeName, kind := .builtin }, ?_, fun accounts => ?_⟩
  · rw [dependencies]
    exact List.mem_singleton_self _
  · have code : "open(it);" ∈ c.body.codes ++ Markup.codesOf c.markup := by simp [body, FunctionBody.codes]
    obtain (param | bound | ⟨call, none, -⟩ | ref) | ⟨d, none, -⟩ := accounts ⟨_, code, mentioned⟩
    · simp [props] at param
    · simp [body, FunctionBody.variables] at bound
    · simp [body] at none
    · simp [body] at ref
    · simp [remarks] at none

theorem dependency_unaccounted_viewContainer : ∃ m s₁ c s₂ f,
    bareConversion (handingUnit "ViewContainerRef") = some (m, s₁, c, s₂) ∧
      Artifact.function? (.component c) = some f ∧ ∃ dep ∈ m.dependencies, ¬ f.Accounts s₂.items dep :=
  overlooked_unaccounted (by simp [overlookedProviders])

end ReactMigration
