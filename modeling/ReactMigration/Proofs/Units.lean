import ReactMigration.Conversion.Unit
import ReactMigration.Proofs.Classes

/-!
The modules that a unit becomes.

What they import from generated modules is known to the index or among them, and the module under
which the index knows the unit is one of them.  The same holds of the stub that replaces a unit.
-/

namespace ReactMigration

open ReactMigration.Text

variable {index : SymbolIndex} {order : NameOrder} {ds : List Declaration}

/-- Every import from a generated module is known to the index or from one of the modules. -/
def Closed (index : SymbolIndex) (as : List Artifact) : Prop :=
  ∀ a ∈ as, ∀ spec ∈ a.imports, ∀ t ∈ spec.target, t.Known index ∨ ∃ b ∈ as, b.ref = t

/-- The module under which a registered declaration is known is among the modules. -/
def Gives (index : SymbolIndex) (d : Declaration) (as : List Artifact) : Prop :=
  index.Registered (.ofDeclaration d) → d.kind ≠ .module →
    ∀ t, ArtifactRef.ofSymbol (.ofDeclaration d) = some t → ∃ b ∈ as, b.ref = t

/-- The modules of a unit with a declaration. -/
structure Delivers (index : SymbolIndex) (d : Declaration) (as : List Artifact) : Prop where
  closed : Closed index as
  gives : Gives index d as

theorem Closed.ofKnown {as : List Artifact} (h : ∀ a ∈ as, Imports.Known index a.imports) :
    Closed index as :=
  fun a ha spec hs t ht => .inl (h a ha spec hs t ht)

/-! ### Pipes -/

theorem dependencyParam_runs (sound : SymbolIndex.Sound ds index) {dep : Injected}
    (service : dep.kind = .service → Model.TargetsService index dep) (d : Draft) :
    Runs (dependencyParam dep) d fun _ d' => d.Prepares index d' := by
  unfold dependencyParam
  extract_lets typed
  have imported (hook : String) {ref : ArtifactRef} (known : ref.Known index) :
      Runs (typed hook ref) d fun _ d' => d.Prepares index d' :=
    .modify_bind (.pure ⟨rfl, fun h => h.add fun _ ht => Option.some.inj ht ▸ known⟩)
  split
  · rename_i kind
    exact imported _ ((service (by simpa using kind)).known sound)
  · split
    · exact imported _ ArtifactRef.known_httpClient
    · exact .pure (.refl d)

theorem pipeHookCall_runs (sound : SymbolIndex.Sound ds index) {dep : Injected}
    (service : dep.kind = .service → Model.TargetsService index dep) {P : ArtifactRef → Prop}
    (imp : ∀ t, t.Known index → P t) {d : Draft} (h : d.imports.Within P) :
    Runs (pipeHookCall dep) d fun _ d' => d'.imports.Within P := by
  unfold pipeHookCall
  split
  · rename_i kind
    have known := (service (by simpa using kind)).known sound
    exact .modify_bind (.pure (h.named (imp _ known) _))
  · split
    · exact .modify_bind (.pure (h.named (imp _ ArtifactRef.known_httpClient) _))
    · exact .pure h

theorem pipeFunctionModule_ensures (sound : SymbolIndex.Sound ds index) {m : PipeModel}
    (services : ∀ dep ∈ m.dependencies, dep.kind = .service → Model.TargetsService index dep)
    (transform : MethodModel) :
    (pipeFunctionModule index m transform).Ensures fun u =>
      u.ref = .pipeFunction m.pipeName m.sourcePath ∧ Imports.Known index u.imports := by
  have carried : (Imports.carry index m.sourcePath [] m.sourceImports).Known index :=
    Imports.Known.carry (fun _ h => by cases h) _ _
  have written (ctx : RecastContext) (name : String) (v type : Option String) (d : Draft) :
      Runs (do return { name, value := ← valueOrUndefined ctx v, type : ConstDecl }) d fun _ d' =>
        d.Prepares index d' := by
    have value : Prepares index (valueOrUndefined ctx v)
        ((v.map (Recast.text ctx)).getD "undefined") :=
      (Members.value_prepares ctx v).bind (.pure _)
    exact value.follow (.refl d) fun _ h => .pure h
  unfold pipeFunctionModule
  extract_lets function names cell work
  have drafted : Runs work {} fun u d =>
      u.ref = .pipeFunction m.pipeName m.sourcePath ∧ d.imports.Known index := by
    refine .modify_bind ?_
    refine (Runs.prepares_mapM (fun c _ => written names c.name c.value c.type) _).bind
      fun constants d₁ h₁ => ?_
    refine (Runs.prepares_mapM (fun c _ => written names c.name c.initial c.type) _).bind
      fun state d₂ h₂ => ?_
    refine (Runs.prepares_mapM (fun c _ => written names c.name c.initial c.type) _).bind
      fun refs d₃ h₃ => ?_
    have noted : Runs (m.getters.forM fun g =>
        Converting.warn s!"Getter '{g.name}' of pipe {m.name} is not converted") d₃ fun _ d' =>
        d₃.Prepares index d' :=
      .forM (.refl d₃) fun g _ d h => (Converting.warn_prepares _ d).mono fun _ _ next => h.trans next.2
    refine noted.bind fun _ d₄ h₄ => ?_
    refine (Prepares.mapM fun f _ => Members.functionDecl_prepares names f).follow h₄
      fun d₅ h₅ => ?_
    refine (Runs.prepares_mapM (fun dep hd => dependencyParam_runs sound (services dep hd)) d₅).bind
      fun extra d₆ h₆ => ?_
    refine (Converting.body_prepares names transform.body).follow (h₅.trans h₆) fun d₇ h₇ => .pure ?_
    exact ⟨rfl, (h₁.trans (h₂.trans (h₃.trans h₇))).known carried⟩
  refine Noting.Ensures.bind drafted ?_
  rintro ⟨u, d⟩ ⟨ref, known⟩
  exact .pure ⟨ref, known⟩

theorem pipeHookModule_ensures (sound : SymbolIndex.Sound ds index) {m : PipeModel}
    (services : ∀ dep ∈ m.dependencies, dep.kind = .service → Model.TargetsService index dep)
    (transform : MethodModel) :
    (pipeHookModule m transform).Ensures fun h => Imports.Within
      (fun t => t.Known index ∨ t = .pipeFunction m.pipeName m.sourcePath) h.imports := by
  unfold pipeHookModule
  extract_lets function args call work
  let P (t : ArtifactRef) : Prop := t.Known index ∨ t = .pipeFunction m.pipeName m.sourcePath
  have start : Imports.Within P [] := fun _ h => by cases h
  have drafted : Runs work {} fun _ d => d.imports.Within P := by
    refine .modify_bind ?_
    refine (Runs.mapM (I := fun d => d.imports.Within P) (R := fun _ _ => True)
      (start.named (.inr rfl) function) fun dep hd d h =>
        (pipeHookCall_runs sound (services dep hd) (fun _ known => .inl known) h).mono
          fun _ _ h => ⟨h, trivial⟩).bind fun calls d h => ?_
    dsimp only
    split
    · exact .modify_bind (.pure (h.1.fromPackage _ _))
    · exact .pure h.1
  refine Noting.Ensures.bind drafted ?_
  rintro ⟨calls, d⟩ known
  exact .pure known

theorem convertPipe_ensures (sound : SymbolIndex.Sound ds index) {decl : PipeDecl} {m : PipeModel}
    (of : Model.Models index decl.toDeclBase [] ["transform"] m.toModelBase)
    (pipeName : m.pipeName = decl.pipeName) :
    (convertPipe index m).Ensures (Delivers index (.pipe decl)) := by
  unfold convertPipe
  split
  · exact .throw _
  · rename_i transform _
    refine (pipeFunctionModule_ensures sound of.services transform).bind fun function own => ?_
    refine (pipeHookModule_ensures sound of.services transform).bind fun hook imports => .pure ?_
    refine ⟨fun a ha spec hs t ht => ?_, fun _ _ t ht => ⟨.util function, by simp, ?_⟩⟩
    · simp only [List.mem_cons, List.not_mem_nil, or_false] at ha
      rcases ha with rfl | rfl
      · exact .inl (own.2 spec hs t ht)
      · refine (imports spec hs t ht).imp_right fun same => ⟨.util function, by simp, ?_⟩
        rw [same]
        exact own.1
    · have unit : (Symbol.ofDeclaration (.pipe decl)).unit = m.sourcePath := of.sourcePath.symm
      rw [← Option.some.inj ht, ← pipeName, unit]
      exact own.1

/-! ### Modules and routes -/

theorem moduleContext_known (sound : SymbolIndex.Sound ds index) {m : ModuleModel}
    (providers : ∀ i ∈ m.providers, Model.TargetsService index i) :
    Imports.Known index (moduleContext index m).imports := by
  have empty : Imports.Known index [] := fun _ h => by cases h
  refine List.foldlRecOn m.providers _ ((empty.fromPackage _ _).reactType _) fun i hi dep hd => ?_
  exact hi.named ((providers dep hd).known sound) _

/-- The component of a route is one that the index knows. -/
theorem routeComponent_known (sound : SymbolIndex.Sound ds index) {name : String} {s : Symbol}
    (found : routeComponent? index name = some s) :
    (ArtifactRef.component s.name s.unit).Known index := by
  obtain ⟨found, kind⟩ := Option.filter_eq_some_iff.mp found
  exact ArtifactRef.known_component sound (sound.registered_of_lookup found) (by simpa using kind)

mutual

theorem routeEntry_steps (sound : SymbolIndex.Sound ds index) (top : Bool) :
    ∀ r, Steps index (routeEntry index top r)
  | .mk path component redirectTo pathMatch children loadChildren guards title => by
      unfold routeEntry
      extract_lets redirect titled shownPath rest shown
      have entries (found : Option String × List String) : Steps index (rest found) := by
        unfold rest
        obtain ⟨element, missing⟩ := found
        dsimp -zeta only
        extract_lets more
        have inner (lazy : List String) : Steps index (more lazy) := by
          have guarded : Steps index (guards.mapM (guardNote path)) :=
            .mapM fun guard _ => (Converting.warn_steps _).bind fun _ => .pure _
          exact guarded.bind fun _ => (routeEntries_steps sound children).bind fun _ => .pure _
        split
        · exact .bind (.pure _) inner
        · exact (Converting.warn_steps _).bind fun _ => .bind (.pure _) inner
      have placed : Steps index (shown ()) := by
        unfold shown
        split
        · exact .bind (.pure _) entries
        · split
          · rename_i found
            have known := routeComponent_known sound found
            exact (Converting.defaultOf_steps known _).bind fun _ => .bind (.pure _) entries
          · exact .bind (.pure _) entries
      split
      · exact (Converting.router_steps _).bind fun _ => placed
      · exact placed

theorem routeEntries_steps (sound : SymbolIndex.Sound ds index) :
    ∀ rs, Steps index (routeEntries index rs)
  | [] => by
      unfold routeEntries
      exact .pure _
  | r :: rs => by
      unfold routeEntries
      refine (routeEntry_steps sound false r).bind fun _ => ?_
      exact (routeEntries_steps sound rs).bind fun _ => .pure _

end

theorem routeModule_ensures (sound : SymbolIndex.Sound ds index) (base sourcePath : String)
    (routes : List RouteDecl) :
    (routeModule index base sourcePath routes).Ensures fun a => Imports.Known index a.imports := by
  unfold routeModule
  dsimp -zeta only
  extract_lets work
  have empty : Imports.Known index [] := fun _ h => by cases h
  have drafted : Runs work {} fun _ d => d.imports.Known index := by
    refine .modify_bind ?_
    have steps : Steps index (routes.mapM (routeEntry index true)) :=
      .mapM fun r _ => routeEntry_steps sound true r
    refine (steps _).mono fun _ d moved => ?_
    obtain ⟨_, _, _, grows⟩ := Draft.Grows.ofSteps moved
    refine grows.known (Imports.Within.add (empty.fromPackage _ _) fun t ht => ?_)
    cases ht
  refine Noting.Ensures.bind drafted ?_
  rintro ⟨entries, d⟩ known
  exact .pure known

theorem convertModule_ensures (sound : SymbolIndex.Sound ds index) {m : ModuleModel}
    (providers : ∀ i ∈ m.providers, Model.TargetsService index i) :
    (convertModule index m).Ensures (Closed index) := by
  unfold convertModule
  extract_lets context rest
  have both (routes : List Artifact) (known : ∀ a ∈ routes, Imports.Known index a.imports) :
      (rest routes).Ensures (Closed index) := by
    refine .pure (.ofKnown fun a ha => ?_)
    rcases List.mem_append.mp ha with ha | ha
    · unfold context at ha
      split at ha
      · rw [List.mem_singleton.mp ha]
        exact moduleContext_known sound providers
      · cases ha
    · exact known a ha
  split
  · refine (routeModule_ensures sound _ _ _).bind fun a known => ?_
    simp only [pure_bind]
    exact both [a] (by simpa using known)
  · simp only [pure_bind]
    exact both [] (by simp)

/-! ### Stubs -/

/-- The stub is made for the declaration. -/
structure StubOf (d : Declaration) (m : StubModel) : Prop where
  name : m.name = d.name
  unitKind : m.unitKind = some d.kind
  sourcePath : m.sourcePath = d.base.sourcePath

theorem stub_imports {m : StubModel} {a : Artifact} (h : stub index m = .ok a) : a.imports = [] := by
  have directive (d : DirectiveDecl) (unit : String) : (directiveStub m d unit).imports = [] := by
    unfold directiveStub
    extract_lets ref
    split
    · rfl
    · split <;> rfl
  unfold stub at h
  split at h
  · cases h
    rfl
  · obtain ⟨d, _, made⟩ := ok_of_bind h
    cases made
    exact directive d _
  · cases h
    rfl
  · split at h
    · cases h
      rfl
    · cases h
  · cases h
    rfl
  · cases h
    rfl

theorem directiveStub_ref (m : StubModel) (d : DirectiveDecl) (unit : String) (name : m.name = d.name)
    (sourcePath : m.sourcePath = unit) :
    (directiveStub m d unit).ref = .directive d.name unit d.directiveKind d.rendersMarkup := by
  unfold directiveStub
  extract_lets ref
  split
  · rename_i structural
    simp [componentStub, Artifact.ref, ArtifactRef.component, ArtifactRef.directive, structural, name,
      sourcePath]
  · split <;> rfl

/-- The stub of a declaration is emitted under the reference by which the index knows it. -/
theorem stub_delivers {d : Declaration} {m : StubModel} {a : Artifact} (of : StubOf d m)
    (h : stub index m = .ok a) : Delivers index d [a] := by
  refine ⟨.ofKnown fun b hb spec hs => ?_, fun registered kind t ht => ⟨a, by simp, ?_⟩⟩
  · rw [List.mem_singleton.mp hb, stub_imports h] at hs
    cases hs
  · have found : index.lookup m.name = some (.ofDeclaration d) := by
      rw [of.name]
      exact registered
    rw [stub, of.unitKind, found] at h
    have place := of.sourcePath
    have name := of.name
    cases d with
    | component d =>
        cases h
        rw [← Option.some.inj ht]
        simp only [componentStub, Artifact.ref, name, place]
        rfl
    | service d =>
        cases h
        rw [← Option.some.inj ht]
        simp only [serviceStub, Artifact.ref, name, place]
        rfl
    | pipe d =>
        cases h
        rw [← Option.some.inj ht]
        rfl
    | directive d =>
        cases h
        rw [← Option.some.inj ht]
        exact directiveStub_ref m d _ name place
    | module d => exact absurd rfl kind
    | routes d => cases ht

/-! ### Units -/

theorem convertComponent_delivers (sound : SymbolIndex.Sound ds index) {decl : ComponentDecl}
    {m : ComponentModel} (of : Model.ComponentOf index decl m) :
    (convertComponent index order m).Ensures (Delivers index (.component decl)) := by
  refine (convertComponent_ensures sound of).mono ?_
  rintro as ⟨c, rfl, writes⟩
  obtain ⟨_, base⟩ := of.base
  refine ⟨fun a ha spec hs t ht => ?_, fun _ _ t ht => ⟨.component c, by simp, ?_⟩⟩
  · rcases List.mem_cons.mp ha with rfl | ha
    · refine (writes.imports spec hs t ht).imp_right ?_
      rintro ⟨styled, rfl⟩
      have some : m.styles.isEmpty = false := by simpa using styled
      refine ⟨.style { ref := .style m.name m.sourcePath, name := Naming.componentName m.name
                       styles := m.styles }, ?_, rfl⟩
      simp [styleModules, some]
    · unfold styleModules at ha
      split at ha
      · cases ha
      · rw [List.mem_singleton.mp ha] at hs
        cases hs
  · rw [← Option.some.inj ht]
    change c.ref = .component decl.name decl.sourcePath
    rw [writes.ref, base.name, base.sourcePath]

theorem convertDirective_delivers (sound : SymbolIndex.Sound ds index) {decl : DirectiveDecl}
    {m : DirectiveModel} (of : Model.DirectiveOf index decl m) :
    (convertDirective index order m).Ensures (Delivers index (.directive decl)) := by
  have single (a : Artifact) (ref : a.ref = directiveRef m) (known : Imports.Known index a.imports) :
      Delivers index (.directive decl) [a] := by
    refine ⟨.ofKnown (by simpa using known), fun _ _ t ht => ⟨a, by simp, ?_⟩⟩
    rw [← Option.some.inj ht, ref, directiveRef, of.base.name, of.base.sourcePath, of.directiveKind,
      of.rendersMarkup]
    rfl
  unfold convertDirective
  split
  · refine .pure (single _ rfl ?_)
    exact Imports.Within.reactType (fun _ h => by cases h) _
  · split
    · refine (directiveWrapper_ensures sound of).bind fun c written => .pure ?_
      exact single (.component c) written.1 written.2.1
    · refine (directiveHook_ensures sound of).bind fun h written => .pure ?_
      exact single (.hook h) written.1 written.2.1

/-- The modules of a model that a declaration was built into. -/
theorem convertOwn_ensures (sound : SymbolIndex.Sound ds index) {d : Declaration} {m : UnitModel}
    (built : Model.Built index d m) : (convertOwn index order m).Ensures (Delivers index d) := by
  cases built with
  | review _ kind name unitKind sourcePath reason =>
      refine Noting.Ensures.bind (.lift fun a made => ?_) fun a delivers => .pure delivers
      exact stub_delivers ⟨name, unitKind, sourcePath⟩ made
  | component of => exact convertComponent_delivers sound of
  | @service d m of =>
      refine (convertService_ensures sound of).mono ?_
      rintro as ⟨h, rfl, writes⟩
      refine ⟨.ofKnown (by simpa [Artifact.imports] using writes.imports),
        fun _ _ t ht => ⟨.hook h, by simp, ?_⟩⟩
      rw [← Option.some.inj ht]
      change h.ref = .service d.name d.sourcePath
      rw [writes.ref, of.name, of.sourcePath]
  | pipe of pipeName => exact convertPipe_ensures sound of pipeName
  | directive of => exact convertDirective_delivers sound of
  | module name sourcePath providers =>
      exact (convertModule_ensures sound providers).mono fun as closed =>
        ⟨closed, fun _ kind => absurd rfl kind⟩
  | routes sourcePath =>
      refine (routeModule_ensures sound _ _ _).bind fun a known => .pure ?_
      exact ⟨.ofKnown (by simpa using known), fun _ _ t ht => by cases ht⟩

/-- A shared module that one of the modules imports is among them. -/
def CarriesShared (as : List Artifact) : Prop :=
  ∀ a ∈ as, ∀ spec ∈ a.imports, ∀ t ∈ spec.target, (Support.find? t).isSome → ∃ b ∈ as, b.ref = t

theorem Support.find?_ref {t : ArtifactRef} {a : Artifact} (h : Support.find? t = some a) :
    a.ref = t ∧ a.imports = [] := by
  have plain : ∀ a ∈ Support.modules, a.imports = [] := by
    simp [Support.modules, Artifact.imports]
  exact ⟨by simpa using List.find?_some h, plain a (List.mem_of_find?_eq_some h)⟩

theorem convertUnit_ensures {d : Declaration} {m : UnitModel}
    (own : (convertOwn index order m).Ensures (Delivers index d)) :
    (convertUnit index order m).Ensures fun as => Delivers index d as ∧ CarriesShared as := by
  refine own.bind fun as delivers => .pure ?_
  -- a shared module imports nothing, so that every import is one of the unit's own modules
  have importer {a : Artifact} {spec : ImportSpec}
      (ha : a ∈ as ++ (Support.importedBy (as.flatMap (·.imports))).filterMap Support.find?)
      (hs : spec ∈ a.imports) : a ∈ as := by
    rcases List.mem_append.mp ha with own | shared
    · exact own
    · obtain ⟨t, _, found⟩ := List.mem_filterMap.mp shared
      rw [(Support.find?_ref found).2] at hs
      cases hs
  refine ⟨⟨fun a ha spec hs t ht => ?_, fun registered kind t ht => ?_⟩, fun a ha spec hs t ht shared => ?_⟩
  · refine (delivers.closed a (importer ha hs) spec hs t ht).imp_right ?_
    rintro ⟨b, hb, same⟩
    exact ⟨b, List.mem_append_left _ hb, same⟩
  · obtain ⟨b, hb, same⟩ := delivers.gives registered kind t ht
    exact ⟨b, List.mem_append_left _ hb, same⟩
  · obtain ⟨b, found⟩ := Option.isSome_iff_exists.mp shared
    refine ⟨b, List.mem_append_right _ (List.mem_filterMap.mpr ⟨t, ?_, found⟩),
      (Support.find?_ref found).1⟩
    simp only [Support.importedBy, List.mem_eraseDups, List.mem_filter, List.mem_filterMap,
      List.mem_flatMap]
    exact ⟨⟨spec, ⟨a, importer ha hs, hs⟩, ht⟩, shared⟩

end ReactMigration
