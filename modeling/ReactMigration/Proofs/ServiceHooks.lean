import ReactMigration.Proofs.ScopeNames

/-!
The hook of a service.

Building a service and converting it never breaks off.  Every method but the constructor, lifecycle
methods and accessors becomes one function, wrapped once if it answers later; what the hook returns
is declared in it.  The cells that follow a method get their names without a look at the scope, so
that another member may bear one of them.
-/

namespace ReactMigration

open ReactMigration.Text

variable {α β : Type} {index : SymbolIndex} {order : NameOrder} {ds : List Declaration}

/-! ### Work that ends -/

/-- The work gives a value, whatever has been noted before. -/
def Noting.Ends (x : Noting α) : Prop :=
  ∀ t, ∃ a t', x.run.run t = (.ok a, t')

namespace Noting.Ends

variable {x : Noting α} {f : α → Noting β}

theorem pure (a : α) : (Pure.pure a : Noting α).Ends :=
  fun t => ⟨a, t, rfl⟩

theorem bind (hx : x.Ends) (hf : ∀ a, (f a).Ends) : (x >>= f).Ends := by
  intro t
  obtain ⟨a, t', first⟩ := hx t
  obtain ⟨b, t'', second⟩ := hf a t'
  refine ⟨b, t'', ?_⟩
  simp only [ExceptT.run_bind, StateT.run_bind, first]
  exact second

theorem warnAt (code : DiagnosticCode) (message : String) (line column : Option Int) :
    (Noting.warnAt code message line column).Ends :=
  fun _ => ⟨_, _, rfl⟩

theorem mapM {f : α → Noting β} : ∀ {l : List α}, (∀ a ∈ l, (f a).Ends) → (l.mapM f).Ends
  | [], _ => by
      rw [List.mapM_nil]
      exact pure []
  | a :: l, h => by
      rw [List.mapM_cons]
      refine (h a List.mem_cons_self).bind fun b => ?_
      exact (mapM fun a' mem => h a' (List.mem_cons_of_mem a mem)).bind fun bs => pure (b :: bs)

theorem foldlM {f : β → α → Noting β} :
    ∀ {l : List α} {b : β}, (∀ b, ∀ a ∈ l, (f b a).Ends) → (l.foldlM f b).Ends
  | [], b, _ => pure b
  | a :: l, b, h => by
      rw [List.foldlM_cons]
      exact (h b a List.mem_cons_self).bind fun _ =>
        foldlM fun b a' mem => h b a' (List.mem_cons_of_mem a mem)

/-- Work that ends gives a value with the property that it ensures. -/
theorem value {P : α → Prop} (ends : x.Ends) (ensures : x.Ensures P) (t : Sink) :
    ∃ a t', x.run.run t = (.ok a, t') ∧ P a := by
  obtain ⟨a, t', run⟩ := ends t
  exact ⟨a, t', run, (ensures t).2 a (by rw [run])⟩

end Noting.Ends

/-- The work on a draft gives a value, whatever the draft is. -/
def Completes (m : Converting α) : Prop :=
  ∀ d, (m.run d).Ends

namespace Completes

variable {m : Converting α}

theorem pure (a : α) : Completes (Pure.pure a : Converting α) :=
  fun d => .pure (a, d)

theorem bind {f : α → Converting β} (hm : Completes m) (hf : ∀ a, Completes (f a)) :
    Completes (m >>= f) :=
  fun d => (hm d).bind fun r => hf r.1 r.2

theorem get : Completes (MonadState.get : Converting Draft) :=
  fun d => .pure (d, d)

theorem modify (f : Draft → Draft) : Completes (modify f : Converting PUnit) :=
  fun d => Noting.Ends.pure (PUnit.unit, f d)

theorem warn (message : String) : Completes (Converting.warn message) :=
  fun d => (Noting.Ends.warnAt _ _ _ _).bind fun _ => .pure ((), d)

theorem mapM {f : α → Converting β} :
    ∀ {l : List α}, (∀ a ∈ l, Completes (f a)) → Completes (l.mapM f)
  | [], _ => by
      rw [List.mapM_nil]
      exact pure []
  | a :: l, h => by
      rw [List.mapM_cons]
      refine (h a List.mem_cons_self).bind fun b => ?_
      exact (mapM fun a' mem => h a' (List.mem_cons_of_mem a mem)).bind fun bs => pure (b :: bs)

theorem forM {f : α → Converting PUnit} :
    ∀ {l : List α}, (∀ a ∈ l, Completes (f a)) → Completes (l.forM f)
  | [], _ => pure PUnit.unit
  | a :: _, h =>
      (h a List.mem_cons_self).bind fun _ => forM fun a' mem => h a' (List.mem_cons_of_mem a mem)

theorem body {ctx : RecastContext} (unescaped : ctx.Unescaped) (source : String) :
    Completes (Converting.body ctx source) := by
  unfold Converting.body
  rw [unescaped.refusal?_eq_none]
  exact get.bind fun _ => (modify _).bind fun _ => (forM fun message _ => warn message).bind fun _ => pure _

end Completes

namespace Members

section Names

variable {ctx : RecastContext} (unescaped : ctx.Unescaped)
include unescaped

theorem value_completes (v : Option String) : Completes (value ctx v) := by
  unfold value
  split
  · exact .pure _
  · exact (Completes.body unescaped _).bind fun _ => .pure _

theorem refDecl_completes (c : RefCell) : Completes (refDecl ctx c) := by
  unfold refDecl
  split
  · exact .pure _
  · exact (value_completes unescaped _).bind fun _ => .pure _

theorem constDecl_completes (c : ConstantCell) : Completes (constDecl ctx c) := by
  refine (value_completes unescaped _).bind fun v => ?_
  split <;> exact .pure _

theorem convert_completes (m : ModelBase) : Completes (convert m ctx) := by
  have recast {α : Type} (source : String) (g : String → α) : Completes (do
      return g (← Converting.body ctx source)) :=
    (Completes.body unescaped source).bind fun _ => .pure _
  have effect (e : Effect) : Completes (Members.effect ctx e) :=
    (Completes.body unescaped _).bind fun _ => (Completes.body unescaped _).bind fun _ => .pure _
  unfold convert
  refine (Completes.mapM fun c _ => (value_completes unescaped c.initial).bind fun _ => .pure _).bind
    fun state => ?_
  extract_lets rest
  have written : Completes (rest ()) := by
    refine (Completes.mapM fun c _ => refDecl_completes unescaped c).bind fun refs => ?_
    refine (Completes.mapM fun c _ => constDecl_completes unescaped c).bind fun constants => ?_
    refine (Completes.mapM fun f _ => recast f.body _).bind fun functions => ?_
    refine (Completes.mapM fun g _ => recast g.body _).bind fun derived => ?_
    refine (Completes.mapM fun e _ => effect e).bind fun effects => ?_
    extract_lets last
    split
    · exact (Completes.modify _).bind fun _ => .modify _
    · exact .modify _
  split
  · exact (Completes.modify _).bind fun _ => written
  · exact written

end Names

theorem routerCall_completes (use hook call : String) : Completes (routerCall use hook call) := by
  refine Completes.get.bind fun d => ?_
  split
  · exact (Completes.modify _).bind fun _ => .pure _
  · exact .pure _

theorem dependencyHook_completes (elementRefs : Table String) (provided : List String)
    (dep : Injected) : Completes (dependencyHook elementRefs provided dep) := by
  unfold dependencyHook
  split
  · exact (Completes.modify _).bind fun _ => .pure _
  · exact .pure _
  · split
    · exact (routerCall_completes _ _ _).bind fun _ => (routerCall_completes _ _ _).bind fun _ =>
        .pure _
    · exact (routerCall_completes _ _ _).bind fun _ => (routerCall_completes _ _ _).bind fun _ =>
        .pure _
    · exact (Completes.modify _).bind fun _ => .pure _
    · refine Completes.get.bind fun d => ?_
      dsimp only
      split <;> exact .pure _
    · split <;> exact .pure _

theorem dependencyHooks_completes (m : ModelBase) (elementRefs : Table String)
    (provided : List String) : Completes (dependencyHooks m elementRefs provided) := by
  refine (Completes.mapM fun dep _ => dependencyHook_completes _ _ dep).bind fun found => ?_
  have written (extra : List String) : Completes (do
      Converting.modifyBody fun b =>
        { b with hookCalls := found.flatMap (·.1) ++ extra ++ b.hookCalls
                 refs := found.flatMap (·.2) ++ b.refs }
      if !(← MonadState.get).body.refs.isEmpty then Converting.react ["useRef"]) := by
    refine (Completes.modify _).bind fun _ => Completes.get.bind fun d => ?_
    split
    · exact .modify _
    · exact .pure _
  dsimp only
  split
  · simp only [pure_bind]
    exact written []
  · exact (routerCall_completes _ _ _).bind fun extra => written extra

end Members

theorem convertService_ends (index : SymbolIndex) (order : NameOrder) {m : ServiceModel}
    (unescaped : (serviceNames order m).Unescaped) : (convertService index order m).Ends := by
  unfold convertService
  extract_lets tracked names hooks work
  have completes : Completes work := by
    refine (Completes.modify _).bind fun _ => (Members.convert_completes unescaped _).bind fun _ =>
      (Completes.modify _).bind fun _ => ?_
    split
    · exact (Completes.modify _).bind fun _ => Members.dependencyHooks_completes _ _ _
    · exact Members.dependencyHooks_completes _ _ _
  exact (completes {}).bind fun r => .pure _

namespace Model

theorem resolveDependency_ends (index : SymbolIndex) (owner : String) (dep : Dependency) :
    (resolveDependency index owner dep).Ends := by
  have missing (injected : InjectedKind → Injected) :
      (resolveDependency.missing owner dep injected).Ends :=
    (Noting.Ends.warnAt _ _ _ _).bind fun _ => .pure _
  unfold resolveDependency
  extract_lets base typeName injected
  split
  · split
    · exact (Noting.Ends.warnAt _ _ _ _).bind fun _ => .pure _
    · exact .pure _
  · split
    · split
      · exact .pure _
      · exact missing _
    · exact missing _

theorem collectMethods_ends (d : DeclBase) (skip : List String) (m : ModelBase) :
    (collectMethods d skip m).Ends := by
  refine .foldlM fun m method _ => ?_
  split
  · exact .pure _
  · split
    · exact .pure _
    · exact (Noting.Ends.warnAt _ _ _ _).bind fun _ => .pure _
    · exact .pure _

/-- Without inputs there are no setters to write. -/
theorem lifecycleEffects_ends (d : DeclBase) : (lifecycleEffects d []).Ends := by
  have changes (m : MethodDecl) : (changesEffect m []).Ends := by
    unfold changesEffect
    extract_lets
    split
    · exact (Noting.Ends.warnAt _ _ _ _).bind fun _ => .pure _
    · exact .pure _
  have setters : setterEffects (inputSetters d []) = pure [] := rfl
  unfold lifecycleEffects
  rw [setters]
  split
  · simp only [pure_bind]
    exact (changes _).bind fun _ => .pure _
  · exact .pure _

theorem buildService_ends (index : SymbolIndex) (d : ServiceDecl) : (buildService index d).Ends :=
  (Noting.Ends.mapM fun dep _ => resolveDependency_ends index _ dep).bind fun _ =>
    (collectMethods_ends _ _ _).bind fun _ => (lifecycleEffects_ends _).bind fun _ => .pure _

/-! ### Methods of the model -/

/-- Whether a method becomes a function: it stays a member and is no accessor. -/
def isFunction (skip : List String) (m : MethodDecl) : Bool :=
  isMember skip m && m.accessor == none

/-- Whether a method becomes a value that is computed on access. -/
def isGetter (skip : List String) (m : MethodDecl) : Bool :=
  isMember skip m && m.accessor == some .get

def getterModel (m : MethodDecl) : GetterModel :=
  ⟨m.name, m.body, m.returnType⟩

/-- The methods and getters of a model are those of the class, in order. -/
theorem collectMethods_collects (d : DeclBase) (skip : List String) (m : ModelBase) :
    (collectMethods d skip m).Ensures fun m' => m' =
      { m with methods := m.methods ++ (d.methods.filter (isFunction skip)).map methodModel
               getters := m.getters ++ (d.methods.filter (isGetter skip)).map getterModel } := by
  refine (Noting.Ensures.foldlM (I := fun given m' => m' =
      { m with methods := m.methods ++ (given.filter (isFunction skip)).map methodModel
               getters := m.getters ++ (given.filter (isGetter skip)).map getterModel })
    (fun given m' method same => ?_) d.methods [] (by simp)).mono fun m' same => by simpa using same
  subst same
  split
  · rename_i passed
    have left : isMember skip method = false := by
      rw [isMember, passed]
      rfl
    exact .pure (by simp [isFunction, isGetter, left])
  · rename_i ordinary
    have stays (accessor : method.accessor ≠ some .set) : isMember skip method = true := by
      rw [Bool.not_eq_true] at ordinary
      rw [isMember, ordinary]
      simpa using accessor
    split
    · rename_i accessor
      exact .pure (by
        simp [isFunction, isGetter, stays (by simp [accessor]), accessor, getterModel])
    · rename_i accessor
      exact (Noting.Ensures.warnAt _ _ _ _).bind fun _ _ => .pure (by
        simp [isFunction, isGetter, accessor])
    · rename_i accessor
      exact .pure (by simp [isFunction, isGetter, stays (by simp [accessor]), accessor])

/-- The model of a service has its functions and getters, and its fields as they are classified. -/
structure ServiceOf (index : SymbolIndex) (d : ServiceDecl) (m : ServiceModel) : Prop where
  models : Models index d.toDeclBase [] [] m.toModelBase
  subjects : m.subjects = (m.state.filter (·.origin == .subject)).map (·.name)
  methods : m.methods = (d.methods.filter (isFunction [])).map methodModel
  getters : m.getters = (d.methods.filter (isGetter [])).map getterModel

theorem buildService_models (sound : SymbolIndex.Sound ds index) (d : ServiceDecl) :
    (buildService index d).Ensures fun u => ∃ m, u = .service m ∧ ServiceOf index d m := by
  refine (resolveDependencies_ensures sound d.toDeclBase).bind fun deps resolved => ?_
  refine ((collectMethods_ensures _ _ _).and (collectMethods_collects _ _ _)).bind
    fun base ⟨collected, exactly⟩ => ?_
  refine (lifecycleEffects_ensures _ _).bind fun effects _ => .pure ⟨_, rfl, ?_⟩
  have models := Models.ofCollected resolved collected
  subst exactly
  exact ⟨{ models with }, rfl, rfl, rfl⟩

end Model

/-! ### Tracking -/

/-- The cell that tells whether calls of a method are under way. -/
def loadingCell (method : String) : StateDecl where
  name := loadingName method
  setter := Naming.setterName (loadingName method)
  initial := some "false"
  type := some "boolean"

/-- The cell that holds the last error of a method. -/
def errorCell (method : String) : StateDecl where
  name := errorName method
  setter := Naming.setterName (errorName method)
  initial := some "null"
  type := some "unknown"

/-- A function whose calls are followed by the cells of its name. -/
def tracking (f : FunctionDecl) : FunctionDecl :=
  trackAsync f (loadingCell f.name).setter (errorCell f.name).setter

theorem trackedState_eq (ms : List MethodModel) :
    trackedState ms = ms.flatMap fun m => [loadingCell m.name, errorCell m.name] :=
  rfl

theorem modifyLast_eq_map {name : String} {f : FunctionDecl → FunctionDecl} {fs : List FunctionDecl}
    (distinct : (fs.map (·.name)).Nodup) :
    modifyLast name f fs = fs.map fun x => if x.name = name then f x else x := by
  have go (fs : List FunctionDecl) (distinct : (fs.map (·.name)).Nodup) :
      modifyLast.go name f fs = fs.map fun x => if x.name = name then f x else x := by
    induction fs with
    | nil => rfl
    | cons x xs ih =>
        rw [List.map_cons, List.nodup_cons] at distinct
        unfold modifyLast.go
        by_cases same : x.name = name
        · have others : ∀ y ∈ xs, y.name ≠ name := fun y mem again =>
            distinct.1 (List.mem_map.mpr ⟨y, mem, again.trans same.symm⟩)
          have kept : (xs.map fun y => if y.name = name then f y else y) = xs :=
            (List.map_congr_left fun y mem => if_neg (others y mem)).trans (List.map_id _)
          simp [same, kept]
        · simp [same, ih distinct.2]
  unfold modifyLast
  rw [go _ (by rw [List.map_reverse]; exact List.nodup_reverse.mpr distinct), List.map_reverse,
    List.reverse_reverse]

theorem trackMethod_functions {b : FunctionBody} (distinct : (b.functions.map (·.name)).Nodup)
    (m : MethodModel) : (trackMethod b m).functions =
      b.functions.map fun f => if f.name = m.name then tracking f else f := by
  refine (modifyLast_eq_map distinct).trans (List.map_congr_left fun f _ => ?_)
  by_cases same : f.name = m.name
  · rw [if_pos same, if_pos same, tracking, same]
    rfl
  · rw [if_neg same, if_neg same]

/-- Every function of a tracked name is wrapped, and wrapped once. -/
theorem foldl_trackMethod_functions {ms : List MethodModel} (once : (ms.map (·.name)).Nodup) :
    ∀ {b : FunctionBody}, (b.functions.map (·.name)).Nodup →
      (ms.foldl trackMethod b).functions =
        b.functions.map fun f => if f.name ∈ ms.map (·.name) then tracking f else f := by
  induction ms with
  | nil => simp
  | cons m ms ih =>
      intro b distinct
      rw [List.map_cons, List.nodup_cons] at once
      have first := trackMethod_functions distinct m
      have names : (trackMethod b m).functions.map (·.name) = b.functions.map (·.name) := by
        rw [first, List.map_map]
        refine List.map_congr_left fun f _ => ?_
        dsimp only [Function.comp_apply]
        split <;> rfl
      rw [List.foldl_cons, ih once.2 (names ▸ distinct), first, List.map_map]
      refine List.map_congr_left fun f _ => ?_
      dsimp only [Function.comp_apply]
      by_cases same : f.name = m.name
      · have other : (tracking f).name ∉ ms.map (·.name) := by
          intro again
          exact once.1 (same ▸ again)
        simp [same, other]
      · simp [same]

/-! ### The hook -/

/-- What a hook returns: public cells and those of tracked methods, public constants, getters and
public methods. -/
def serviceReturns (m : ServiceModel) : List String :=
  (m.state.filter (·.isPublic)).map (·.name) ++
    (trackedState (m.methods.filter (·.asynchronous))).map (·.name) ++
    (m.constants.filter fun c => c.isPublic && !c.static).map (·.name) ++
    m.getters.map (·.name) ++ (m.methods.filter (·.isPublic)).map (·.name)

/-- The body of a service's hook: its members, the tracking of its methods, and what stands for its
dependencies. -/
structure HookOf (order : NameOrder) (m : ServiceModel) (h : HookArtifact) : Prop where
  body : ∃ found extra effects, h.body = Members.injecting found extra
    ((m.methods.filter (·.asynchronous)).foldl trackMethod
      (Members.bodyOf m.toModelBase (serviceNames order m) effects))
  returns : h.returns = serviceReturns m

theorem convertService_hook (sound : SymbolIndex.Sound ds index) {decl : ServiceDecl}
    {m : ServiceModel} (of : Model.ServiceOf index decl m) :
    (convertService index order m).Ensures fun as => ∃ h, as = [.hook h] ∧ HookOf order m h := by
  unfold convertService
  extract_lets tracked names hooks work returns
  let followed (effects : List EffectDecl) :=
    tracked.foldl trackMethod (Members.bodyOf m.toModelBase names effects)
  have injected {d d' : Draft} {effects : List EffectDecl} (prepared : d.Prepares index d')
      (body : d.body = followed effects) :
      Runs (Members.dependencyHooks m.toModelBase [] []) d' fun _ d'' =>
        ∃ found extra effects, d''.body = Members.injecting found extra (followed effects) := by
    refine (Members.dependencyHooks_runs sound [] [] of.models.services d').mono ?_
    rintro _ d'' ⟨found, extra, -, -, kept⟩
    exact ⟨found, extra, effects, by rw [kept.body, ← body, ← prepared.body]⟩
  have drafted : Runs work {} fun _ d =>
      ∃ found extra effects, d.body = Members.injecting found extra (followed effects) := by
    refine .modify_bind ((@Members.convert_runs index m.toModelBase names _).bind ?_)
    rintro _ d ⟨effects, prepared⟩
    refine .modify_bind ?_
    have body : d.body = Members.bodyOf m.toModelBase names effects := prepared.body
    have tracking : ({ d with body := tracked.foldl trackMethod d.body } : Draft).body =
        followed effects := by
      rw [body]
    dsimp only
    split
    · exact (Converting.react_prepares _).follow (.refl _) fun d' kept => injected kept tracking
    · exact injected (.refl _) tracking
  refine Noting.Ensures.bind drafted ?_
  rintro ⟨_, d⟩ ⟨found, extra, effects, body⟩
  refine .pure ⟨_, rfl, ⟨found, extra, effects, body⟩, ?_⟩
  simp [serviceReturns, returns, tracked, trackedState, List.map_flatMap]

/-- The methods of a service that are called by its users: neither the constructor nor lifecycle
methods, and no accessors. -/
def ServiceDecl.functions (d : ServiceDecl) : List MethodDecl :=
  d.methods.filter fun m =>
    m.name != "constructor" && !Framework.lifecycle.contains m.name && m.accessor == none

/-- The cells of the methods that answer later. -/
def ServiceDecl.cells (d : ServiceDecl) : List StateDecl :=
  (d.functions.filter (·.isAsynchronous)).flatMap fun m => [loadingCell m.name, errorCell m.name]

/-- The names of the fields, the methods and getters that stay members, and what is injected. -/
def ServiceDecl.memberNames (d : ServiceDecl) : List String :=
  d.fields.map (·.name) ++ (d.methods.filter (Model.isMember [])).map (·.name) ++
    d.dependencies.map (·.name)

/-- The members of a service have different names, and names that recasting writes have no backslash, which
would begin an escape there. -/
structure ServiceDecl.Named (d : ServiceDecl) : Prop where
  distinct : d.memberNames.Nodup
  unescaped : ∀ name ∈ d.fields.map (·.name) ++ d.dependencies.map (·.name), '\\' ∉ name.toList

/-! ### Names without backslashes -/

/-- The code of a visible character is the number that it was made from. -/
theorem toNat_of_eq_ofNat {n : Nat} {c : Char} (same : c = Char.ofNat n) (visible : c ≠ Char.ofNat 0) :
    c.toNat = n := by
  subst same
  by_cases valid : n.isValidChar
  · rw [Char.ofNat, dif_pos valid]
    rfl
  · refine absurd ?_ visible
    rw [Char.ofNat, dif_neg valid]
    rfl

/-- No other character has the backslash in its upper case. -/
theorem unescaped_upper {c : Char} (other : c ≠ '\\') : '\\' ∉ upper c := by
  have expansions : upperExpansions.all (fun e => !(e.2.map Char.ofNat).contains '\\') = true := by decide +kernel
  have spans : upperSpans.all (fun s => decide (92 < (s.start : Int) + s.shift ∨
      (s.start : Int) + s.count * s.step + s.shift ≤ 92)) = true := by
    decide +kernel
  unfold upper caseImage
  split
  · rename_i ascii
    have apart := forall_ascii (P := fun c => c ≠ '\\' → '\\' ≠ c.toUpper) (by decide +kernel) ascii other
    exact fun mem => apart (List.mem_singleton.mp mem)
  · split
    · rename_i n image found
      have none := List.all_eq_true.mp expansions _ (List.mem_of_find?_eq_some found)
      simpa using none
    · split
      · rename_i n found
        obtain ⟨s, listed, image⟩ := List.exists_of_findSome?_eq_some found
        have range := of_decide_eq_true (List.all_eq_true.mp spans s listed)
        unfold CaseSpan.image? at image
        split at image
        · rename_i within
          cases image
          intro mem
          have code : 92 = _ := toNat_of_eq_ofNat (List.mem_singleton.mp mem) (by decide)
          omega
        · cases image
      · exact fun mem => other (List.mem_singleton.mp mem).symm

theorem unescaped_setterName {name : String} (plain : '\\' ∉ name.toList) :
    '\\' ∉ (Naming.setterName name).toList := by
  rw [Naming.setterName, String.toList_append, List.mem_append, not_or]
  refine ⟨by decide, ?_⟩
  unfold upperFirst
  split
  · decide
  · rename_i c cs chars
    rw [chars, List.mem_cons, not_or] at plain
    rw [String.toList_ofList, List.mem_append, not_or]
    exact ⟨unescaped_upper (Ne.symm plain.1), plain.2⟩

theorem Model.ServiceOf.unescaped {d : ServiceDecl} {m : ServiceModel} (of : Model.ServiceOf index d m)
    (order : NameOrder)
    (plain : ∀ name ∈ d.fields.map (·.name) ++ d.dependencies.map (·.name), '\\' ∉ name.toList) :
    (serviceNames order m).Unescaped := by
  have cells : ∀ name ∈ m.state.map (·.name) ++ m.refs.map (·.name) ++ m.constants.map (·.name),
      '\\' ∉ name.toList := fun name mem => plain name (List.mem_append_left _ (of.models.cells_perm.mem_iff.mp mem))
  have state : ∀ c ∈ m.state, '\\' ∉ c.name.toList := fun c mem =>
    cells _ (List.mem_append_left _ (List.mem_append_left _ (List.mem_map_of_mem mem)))
  refine ⟨nofun, fun s mem => ?_, fun name mem => ?_, fun name mem => ?_, nofun, fun dep mem => ?_⟩
  · obtain ⟨c, listed, rfl⟩ | none := Table.mem_foldl_set StateCell.name StateCell.setter mem
    · exact unescaped_setterName (state c listed)
    · cases none
  · rw [serviceNames, Members.context, order.mem_list, of.subjects] at mem
    obtain ⟨c, listed, rfl⟩ := List.mem_map.mp mem
    exact state c (List.mem_filter.mp listed).1
  · have listed := order.mem_list.mp mem
    exact cells name (List.mem_append_left _ (List.mem_append_right _ listed))
  · obtain ⟨injected, listed, rfl⟩ | none := Table.mem_foldl_set Injected.name id mem
    · refine plain _ (List.mem_append_right _ ?_)
      rw [← of.models.dependencyNames]
      exact List.mem_map_of_mem listed
    · cases none

/-- A method as a function: its body recast, and wrapped if it answers later. -/
def servedFunction (ctx : RecastContext) (m : MethodDecl) : FunctionDecl :=
  if m.isAsynchronous then tracking ((Model.methodModel m).decl ctx)
  else (Model.methodModel m).decl ctx

/-- The names that a hook can return. -/
def FunctionBody.declared (b : FunctionBody) : List String :=
  b.state.map (·.name) ++ b.constants.map (·.name) ++ b.derived.map (·.name) ++
    b.functions.map (·.name)

/-- The body declares a cell, and nothing else under its name or that of its setter. -/
def FunctionBody.Owns (b : FunctionBody) (c : StateDecl) : Prop :=
  b.variables.count c.name = 1 ∧ b.variables.count c.setter = 1

/-- What the hook of a service does for the methods of the class. -/
structure Serves (d : ServiceDecl) (ctx : RecastContext) (h : HookArtifact) : Prop where
  functions : h.body.functions = d.functions.map (servedFunction ctx)
  once : ∀ m ∈ d.functions, h.body.functions.filter (·.name == m.name) = [servedFunction ctx m]
  returned : ∀ m ∈ d.functions, m.visibility = .anywhere → m.name ∈ h.returns
  declared : ∀ name ∈ h.returns, name ∈ h.body.declared
  cells : ∃ members, h.body.state = members ++ d.cells ∧
    ((∀ c ∈ d.cells, h.body.Owns c) ↔
      (d.cells.map (·.name) ++ d.cells.map (·.setter)).Nodup ∧
      (d.cells.map (·.name) ++ d.cells.map (·.setter)).Disjoint
        ({ h.body with state := members } : FunctionBody).variables)

theorem filter_isFunction (ms : List MethodDecl) :
    ms.filter (Model.isFunction []) = ms.filter fun m =>
      m.name != "constructor" && !Framework.lifecycle.contains m.name && m.accessor == none := by
  apply List.filter_congr
  intro m _
  cases accessor : m.accessor with
  | none => simp [Model.isFunction, Model.isMember, accessor, bne]
  | some a => cases a <;> simp [Model.isFunction, accessor]

/-- Of the names in a list, those of the first part occur once in the whole exactly if they occur
once in their part and not in the other. -/
theorem forall_count_eq_one_iff {l a b : List String} (perm : l.Perm (a ++ b)) :
    (∀ n ∈ a, l.count n = 1) ↔ a.Nodup ∧ a.Disjoint b := by
  have split (n : String) : l.count n = a.count n + b.count n := by
    rw [perm.count_eq, List.count_append]
  constructor
  · intro once
    refine ⟨List.nodup_iff_count_le_one.mpr fun n => ?_, fun n inA inB => ?_⟩
    · by_cases mem : n ∈ a
      · have := once n mem
        have := split n
        omega
      · rw [List.count_eq_zero.mpr mem]
        omega
    · have := once n inA
      have := split n
      have := List.count_pos_iff.mpr inA
      have := List.count_pos_iff.mpr inB
      omega
  · rintro ⟨distinct, apart⟩ n mem
    rw [split, List.count_eq_one_of_mem distinct mem, List.count_eq_zero.mpr fun inB => apart mem inB]

theorem variables_perm {b : FunctionBody} {members cells : List StateDecl}
    (state : b.state = members ++ cells) :
    b.variables.Perm ((cells.map (·.name) ++ cells.map (·.setter)) ++
      ({ b with state := members } : FunctionBody).variables) := by
  apply List.perm_iff_count.mpr
  intro name
  simp only [FunctionBody.variables, state, List.map_append, List.count_append]
  omega

theorem owns_iff {b : FunctionBody} {members cells : List StateDecl}
    (state : b.state = members ++ cells) :
    (∀ c ∈ cells, b.Owns c) ↔
      (cells.map (·.name) ++ cells.map (·.setter)).Nodup ∧
      (cells.map (·.name) ++ cells.map (·.setter)).Disjoint
        ({ b with state := members } : FunctionBody).variables := by
  rw [← forall_count_eq_one_iff (variables_perm state)]
  simp only [FunctionBody.Owns, List.mem_append, List.mem_map, or_imp, forall_and,
    forall_exists_index, and_imp, forall_apply_eq_imp_iff₂]

theorem foldl_trackMethod_state (ms : List MethodModel) (b : FunctionBody) :
    (ms.foldl trackMethod b).state = b.state ++ trackedState ms := by
  induction ms generalizing b with
  | nil => simp [trackedState]
  | cons m ms ih =>
      rw [List.foldl_cons, ih]
      simp [trackMethod, trackedState]

theorem foldl_trackMethod_others (ms : List MethodModel) (b : FunctionBody) :
    (ms.foldl trackMethod b).constants = b.constants ∧
      (ms.foldl trackMethod b).derived = b.derived := by
  induction ms generalizing b with
  | nil => exact ⟨rfl, rfl⟩
  | cons m ms ih => exact ih (trackMethod b m)

theorem filter_name_eq {ms : List MethodDecl} (distinct : (ms.map (·.name)).Nodup) {m : MethodDecl}
    (mem : m ∈ ms) : ms.filter (·.name == m.name) = [m] := by
  induction ms with
  | nil => cases mem
  | cons f ms ih =>
      rw [List.map_cons, List.nodup_cons] at distinct
      rcases List.mem_cons.mp mem with rfl | later
      · have others : ms.filter (·.name == m.name) = [] := by
          rw [List.filter_eq_nil_iff]
          intro g inside same
          exact distinct.1 (List.mem_map.mpr ⟨g, inside, eq_of_beq same⟩)
        simp [others]
      · have other : f.name ≠ m.name := fun same =>
          distinct.1 (same ▸ List.mem_map.mpr ⟨m, later, rfl⟩)
        simpa [other] using ih distinct.2 later

theorem servedFunction_name (ctx : RecastContext) (m : MethodDecl) :
    (servedFunction ctx m).name = m.name := by
  unfold servedFunction
  split <;> rfl

namespace HookOf

variable {decl : ServiceDecl} {m : ServiceModel} {h : HookArtifact}

theorem methods_eq (of : Model.ServiceOf index decl m) :
    m.methods = decl.functions.map Model.methodModel := by
  rw [of.methods, filter_isFunction]
  rfl

theorem tracked_eq (of : Model.ServiceOf index decl m) :
    m.methods.filter (·.asynchronous) =
      (decl.functions.filter (·.isAsynchronous)).map Model.methodModel := by
  rw [methods_eq of, List.filter_map]
  rfl

/-- The functions of a hook are the methods of the class, in order. -/
theorem functions_eq (hook : HookOf order m h) (of : Model.ServiceOf index decl m)
    (distinct : (decl.functions.map (·.name)).Nodup) :
    h.body.functions = decl.functions.map (servedFunction (serviceNames order m)) := by
  obtain ⟨found, extra, effects, body⟩ := hook.body
  have names : (decl.functions.filter (·.isAsynchronous)).map
      ((·.name) ∘ Model.methodModel) = (decl.functions.filter (·.isAsynchronous)).map (·.name) := rfl
  have once : ((m.methods.filter (·.asynchronous)).map (·.name)).Nodup := by
    rw [tracked_eq of, List.map_map, names]
    exact (List.filter_sublist.map _).nodup distinct
  have given : (Members.bodyOf m.toModelBase (serviceNames order m) effects).functions =
      decl.functions.map fun f => (Model.methodModel f).decl (serviceNames order m) := by
    rw [Members.bodyOf, methods_eq of, List.map_map]
    rfl
  have apart : ((Members.bodyOf m.toModelBase (serviceNames order m) effects).functions.map
      (·.name)).Nodup := by
    rw [given, List.map_map]
    exact distinct
  rw [body]
  change (List.foldl trackMethod _ _).functions = _
  rw [foldl_trackMethod_functions once apart, given, List.map_map]
  refine List.map_congr_left fun f mem => ?_
  dsimp only [Function.comp_apply]
  have followed : ((Model.methodModel f).decl (serviceNames order m)).name ∈
      (m.methods.filter (·.asynchronous)).map (·.name) ↔ f.isAsynchronous = true := by
    rw [tracked_eq of, List.map_map, names]
    constructor
    · intro named
      obtain ⟨g, found, same⟩ := List.mem_map.mp named
      obtain ⟨inside, later⟩ := List.mem_filter.mp found
      rwa [← List.inj_on_of_nodup_map distinct inside mem same]
    · exact fun later => List.mem_map.mpr ⟨f, List.mem_filter.mpr ⟨mem, later⟩, rfl⟩
  unfold servedFunction
  by_cases later : f.isAsynchronous = true
  · rw [if_pos (followed.mpr later), if_pos later]
  · rw [if_neg (mt followed.mp later), if_neg later]

theorem state_eq (hook : HookOf order m h) (of : Model.ServiceOf index decl m) :
    h.body.state = m.state.map (·.decl (serviceNames order m)) ++ decl.cells := by
  obtain ⟨found, extra, effects, body⟩ := hook.body
  rw [body]
  change (List.foldl trackMethod _ _).state = _
  rw [foldl_trackMethod_state, tracked_eq of, trackedState_eq, List.flatMap_map]
  rfl

theorem declares (hook : HookOf order m h) (of : Model.ServiceOf index decl m)
    (distinct : (decl.functions.map (·.name)).Nodup) :
    ∀ name ∈ h.returns, name ∈ h.body.declared := by
  obtain ⟨found, extra, effects, body⟩ := hook.body
  have functions : h.body.functions.map (·.name) = m.methods.map (·.name) := by
    rw [hook.functions_eq of distinct, methods_eq of, List.map_map, List.map_map]
    exact List.map_congr_left fun f _ => servedFunction_name _ f
  have constants : h.body.constants = m.constants.map (·.decl (serviceNames order m)) := by
    rw [body]
    exact (foldl_trackMethod_others _ _).1
  have derived : h.body.derived = m.getters.map (·.decl (serviceNames order m)) := by
    rw [body]
    exact (foldl_trackMethod_others _ _).2
  have cells : trackedState (m.methods.filter (·.asynchronous)) = decl.cells := by
    rw [tracked_eq of, trackedState_eq, List.flatMap_map]
    rfl
  intro name returned
  rw [hook.returns, serviceReturns, cells] at returned
  simp only [FunctionBody.declared, hook.state_eq of, functions, constants, derived,
    List.map_append, List.map_map, Function.comp_def, StateCell.decl_name,
    ConstantCell.decl_name, GetterModel.decl_name]
  have part {α : Type} {p : α → Bool} {l : List α} {g : α → String}
      (found : name ∈ (l.filter p).map g) : name ∈ l.map g :=
    (List.filter_sublist.map g).subset found
  simp only [List.mem_append] at returned ⊢
  rcases returned with (((state | tracked) | constant) | getter) | method
  · exact .inl (.inl (.inl (.inl (part state))))
  · exact .inl (.inl (.inl (.inr tracked)))
  · exact .inl (.inl (.inr (part constant)))
  · exact .inl (.inr getter)
  · exact .inr (part method)

theorem serves (hook : HookOf order m h) (of : Model.ServiceOf index decl m)
    (distinct : (decl.functions.map (·.name)).Nodup) : Serves decl (serviceNames order m) h := by
  have functions := hook.functions_eq of distinct
  refine ⟨functions, fun f mem => ?_, fun f mem visible => ?_, hook.declares of distinct,
    _, hook.state_eq of, owns_iff (hook.state_eq of)⟩
  · rw [functions, List.filter_map]
    simp only [Function.comp_def, servedFunction_name, filter_name_eq distinct mem]
    rfl
  · have method : Model.methodModel f ∈ m.methods.filter (·.isPublic) := by
      rw [methods_eq of]
      exact List.mem_filter.mpr ⟨List.mem_map.mpr ⟨f, mem, rfl⟩, by simp [Model.methodModel, visible]⟩
    rw [hook.returns, serviceReturns]
    exact List.mem_append_right _ (List.mem_map.mpr ⟨_, method, rfl⟩)

end HookOf

/-- A service whose members are named well becomes one hook, in which each of its methods is one function,
wrapped once if it answers later, public ones are returned, and all that is returned is declared.  The two
cells of a method are its own exactly if neither their names nor those of their setters are used again, by
other cells or by anything else in the hook. -/
theorem service_served (ds : List Declaration) (units : List String) (order : NameOrder) {decl : ServiceDecl}
    (named : decl.Named) (sink : Sink) :
    ∃ m s h s', (Model.build (SymbolIndex.build ds units) (.service decl)).run.run sink =
        (.ok (.service m), s) ∧
      (convertOwn (SymbolIndex.build ds units) order (.service m)).run.run s = (.ok [.hook h], s') ∧
      Serves decl (serviceNames order m) h := by
  have sound := (SymbolIndex.build_sound ds units).1
  have functions : (decl.functions.map (·.name)).Nodup := by
    have members := (List.nodup_append'.mp (List.nodup_append'.mp named.distinct).1).2.1
    refine List.Sublist.nodup (List.Sublist.map _ ?_) members
    rw [ServiceDecl.functions, ← filter_isFunction]
    exact List.monotone_filter_right _ fun f keeps => (Bool.and_eq_true _ _ ▸ keeps).1
  obtain ⟨_, s, built, m, rfl, of⟩ := (Model.buildService_ends _ decl).value
    (Model.buildService_models sound decl) sink
  obtain ⟨_, s', made, h, rfl, hook⟩ := (convertService_ends _ order (of.unescaped order named.unescaped)).value
    (convertService_hook sound of) s
  exact ⟨m, s, h, s', built, made, hook.serves of functions⟩

/-- The hook of a service on its own. -/
def ServiceDecl.hook? (d : ServiceDecl) : Option HookArtifact :=
  match (Model.build (SymbolIndex.build [] []) (.service d)).run.run { unit := d.sourcePath } with
  | (.ok (.service m), s) =>
      match (convertOwn (SymbolIndex.build [] []) .written (.service m)).run.run s with
      | (.ok [a], _) => a.hook?
      | _ => none
  | _ => none

/-- A service with methods of every kind. -/
def loaderService : ServiceDecl where
  name := "Loader"
  sourcePath := "loader.ts"
  fields := [{ name := "count", initializer := some "0" }]
  methods :=
    [{ name := "constructor" }, { name := "load", body := "this.count = 1;", isAsync := true },
     { name := "poll", returnType := some "Promise<void>", visibility := .classOnly },
     { name := "reset", body := "this.count = 0;" },
     { name := "full", body := "return true;", accessor := some .get }]

theorem service_served_loader : loaderService.Named ∧
    ∃ h, loaderService.hook? = some h ∧ (∃ ctx, Serves loaderService ctx h) ∧
      h.body.functions.map (·.name) = ["load", "poll", "reset"] ∧
      h.returns = ["count", "loadLoading", "loadError", "pollLoading", "pollError", "full", "load",
        "reset"] ∧
      h.body.Owns (loadingCell "load") := by
  have named : loaderService.Named := ⟨by decide, by decide⟩
  obtain ⟨m, s, h, s', built, made, serves⟩ :=
    service_served [] [] .written named { unit := loaderService.sourcePath }
  have found : loaderService.hook? = some h := by
    rw [ServiceDecl.hook?, built]
    dsimp only
    rw [made]
    rfl
  have computed : (loaderService.hook?.any fun h => decide
      (h.body.functions.map (·.name) = ["load", "poll", "reset"] ∧
        h.returns = ["count", "loadLoading", "loadError", "pollLoading", "pollError", "full", "load",
          "reset"] ∧
        h.body.variables.count "loadLoading" = 1 ∧
        h.body.variables.count "setLoadLoading" = 1)) = true := by
    decide +kernel
  rw [found] at computed
  obtain ⟨functions, returns, name, setter⟩ := of_decide_eq_true computed
  exact ⟨named, h, found, ⟨_, serves⟩, functions, returns, name, setter⟩

/-- A service with a method that bears the name of another method's setter. -/
def sessionService : ServiceDecl where
  name := "Session"
  sourcePath := "session.ts"
  methods := [{ name := "token", body := "return 1;", isAsync := true },
    { name := "setToken", isAsync := true }]

theorem cells_shared_session : sessionService.Named ∧
    loadingCell "token" ∈ sessionService.cells ∧
    ∃ h, sessionService.hook? = some h ∧ ¬ h.body.Owns (loadingCell "token") := by
  have computed : (sessionService.hook?.any fun h =>
      decide (h.body.variables.count "setTokenLoading" = 2)) = true := by
    decide +kernel
  obtain ⟨h, found, twice⟩ := (Option.any_eq_true _ _).mp computed
  refine ⟨⟨by decide, by decide⟩, List.mem_cons_self, h, found, fun owns => ?_⟩
  have once : h.body.variables.count "setTokenLoading" = 1 := owns.2
  rw [of_decide_eq_true twice] at once
  cases once

end ReactMigration
