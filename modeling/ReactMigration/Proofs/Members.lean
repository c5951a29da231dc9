import ReactMigration.Conversion.Directive
import ReactMigration.Conversion.Pipe
import ReactMigration.Conversion.Service
import ReactMigration.Proofs.Models
import ReactMigration.Proofs.Recasting
import ReactMigration.Proofs.Steps

/-!
The body that class members become.

Recasting is the only thing that happens to a member on its way into the body, so the body is a
function of the model: each field, method and getter keeps its name and its place in its group.  On
the way the draft otherwise gathers imports, all of modules that the run gives.
-/

namespace ReactMigration

open ReactMigration.Text
open Relation (ReflTransGen)

variable {index : SymbolIndex} {ds : List Declaration}

/-! ### Imports -/

namespace Imports

variable {P : ArtifactRef → Prop} {i : Imports}

theorem Within.fromPackage (h : i.Within P) (module : String) (names : List String) :
    (fromPackage module i names).Within P := by
  refine List.foldlRecOn names _ h fun i hi name _ => ?_
  exact hi.add fun t ht => by cases ht

theorem Within.named {ref : ArtifactRef} (h : i.Within P) (known : P ref) (name : String) :
    (i.named ref name).Within P :=
  h.add fun _ ht => Option.some.inj ht ▸ known

theorem Within.reactType (h : i.Within P) (name : String) : (i.reactType name).Within P :=
  h.add fun t ht => by cases ht

/-- Of the imports of a unit only packages and copies of types are carried over. -/
theorem Known.carry (h : i.Known index) (sourcePath : String) (ds : List ImportDecl) :
    (carry index sourcePath i ds).Known index := by
  refine List.foldlRecOn ds _ h fun i hi d _ => ?_
  have package {i : Imports} {spec : ImportSpec} (hi : i.Known index) (none : spec.target = none) :
      (i.add spec).Known index :=
    hi.add fun t ht => by simp [none] at ht
  unfold carryOne
  extract_lets streams names path whole default
  split
  · exact hi
  · split
    · split
      · rename_i types
        refine List.foldlRecOn names _ hi fun i hi name _ => hi.add ?_
        intro t ht
        cases ht
        exact .types types
      · exact hi
    · have first : whole.Known index := by
        unfold whole
        split
        · exact package hi rfl
        · exact hi
      have second : default.Known index := by
        unfold default
        split
        · exact package first rfl
        · exact first
      exact List.foldlRecOn names _ second fun i hi name _ => package hi rfl

end Imports

theorem Model.TargetsService.known {dep : Injected} (sound : SymbolIndex.Sound ds index)
    (h : Model.TargetsService index dep) :
    (ArtifactRef.service (dep.target.getD "") (dep.targetUnit.getD "")).Known index := by
  obtain ⟨s, registered, isService, target, unit⟩ := h
  rw [target, unit]
  exact ArtifactRef.known_service sound registered isService

/-- Only the imports and the hooks that the code relies on may differ, and known imports stay
known. -/
structure Draft.Prepares (index : SymbolIndex) (d d' : Draft) : Prop where
  same : d' = { d with imports := d'.imports, uses := d'.uses }
  known : d.imports.Known index → d'.imports.Known index

namespace Draft.Prepares

variable {d d' d'' : Draft}

theorem refl (d : Draft) : Prepares index d d :=
  ⟨rfl, id⟩

theorem trans (first : Prepares index d d') (second : Prepares index d' d'') :
    Prepares index d d'' := by
  refine ⟨?_, fun h => second.known (first.known h)⟩
  rw [second.same, first.same]

theorem body (h : Prepares index d d') : d'.body = d.body := by
  rw [h.same]

end Draft.Prepares

/-- The work prepares the draft and gives one value. -/
abbrev Prepares (index : SymbolIndex) {α : Type} (m : Converting α) (a : α) : Prop :=
  ∀ d, Runs m d fun a' d' => a' = a ∧ d.Prepares index d'

namespace Prepares

variable {α β : Type}

theorem pure (a : α) : Prepares index (Pure.pure a) a :=
  fun d => .pure ⟨rfl, .refl d⟩

theorem bind {m : Converting α} {f : α → Converting β} {a : α} {b : β} (hm : Prepares index m a)
    (hf : Prepares index (f a) b) : Prepares index (m >>= f) b := by
  intro d
  refine (hm d).bind fun a' d' h => ?_
  obtain ⟨rfl, first⟩ := h
  exact (hf d').mono fun _ _ h => ⟨h.1, first.trans h.2⟩

/-- What comes next goes on from a draft that is prepared as well. -/
theorem follow {m : Converting α} {f : α → Converting β} {a : α} {R : β → Draft → Prop}
    {start d : Draft} (hm : Prepares index m a) (h : start.Prepares index d)
    (hf : ∀ d', start.Prepares index d' → Runs (f a) d' R) : Runs (m >>= f) d R := by
  refine (hm d).bind fun a' d' next => ?_
  obtain ⟨rfl, prepared⟩ := next
  exact hf d' (h.trans prepared)

theorem mapM {f : α → Converting β} {g : α → β} {l : List α}
    (h : ∀ a ∈ l, Prepares index (f a) (g a)) : Prepares index (l.mapM f) (l.map g) := by
  intro d
  refine (Runs.mapM (I := fun d' => d.Prepares index d') (R := fun a b => b = g a) (.refl d)
    fun a ha d' hd' => (h a ha d').mono fun b d'' hb => ⟨hd'.trans hb.2, hb.1⟩).mono ?_
  rintro bs d' ⟨prepared, values⟩
  refine ⟨?_, prepared⟩
  induction values with
  | nil => rfl
  | cons eq _ ih => rw [List.map_cons, ← eq, ← ih fun a ha => h a (List.mem_cons_of_mem _ ha)]

end Prepares

theorem Runs.prepares_mapM {α β : Type} {f : α → Converting β} {l : List α}
    (h : ∀ a ∈ l, ∀ d, Runs (f a) d fun _ d' => d.Prepares index d') (d : Draft) :
    Runs (l.mapM f) d fun _ d' => d.Prepares index d' :=
  (Runs.mapM (I := fun d' => d.Prepares index d') (R := fun _ _ => True) (.refl d)
    fun a ha d' before => (h a ha d').mono fun _ _ next => ⟨before.trans next, trivial⟩).mono
    fun _ _ h => h.1

theorem Converting.react_prepares (names : List String) : Prepares index (react names) () :=
  fun _ => .modify ⟨rfl, rfl, fun h => h.fromPackage "react" names⟩

theorem Converting.warn_prepares (message : String) : Prepares index (warn message) () :=
  fun d => .lifted ((Noting.Ensures.warn _ _).mono fun _ _ => ⟨rfl, .refl d⟩)

/-- Recasting relies on hooks and leaves the rest of the draft alone. -/
theorem Converting.recasting_runs {α : Type} (r : Recasting α) (d : Draft) :
    Runs (recasting r) d fun a d' => a = (r.run { uses := d.uses }).1 ∧ d.Prepares index d' := by
  refine .get_bind (.modify_bind ?_)
  refine Runs.bind (Q := fun _ d' => d.Prepares index d') ?_ fun _ d' h => .pure ⟨rfl, h⟩
  refine .forM ⟨rfl, id⟩ fun message _ d' h => ?_
  exact (warn_prepares message d').mono fun _ _ next => h.trans next.2

/-- What a body is recast into does not depend on the draft. -/
theorem Converting.body_prepares (ctx : RecastContext) (source : String) :
    Prepares index (body ctx source) (Recast.text ctx source) := by
  intro d
  unfold body
  split
  · exact (recasting_runs _ d).mono fun _ _ h => ⟨h.1.trans (Recast.body_run ctx source _), h.2⟩
  · exact (@recasting_runs index _ _ d).bind fun _ _ _ => .throw _

theorem Converting.expression_runs (ctx : RecastContext) (locals : Table String) (source : String)
    (d : Draft) : Runs (expression ctx locals source) d fun _ d' => d.Prepares index d' :=
  .lifted_bind (.lift fun _ _ => trivial) fun source _ => (body_prepares ctx source d).mono fun _ _ h => h.2

open Converting (react_prepares warn_prepares body_prepares expression_runs)

/-! ### Cells -/

def StateCell.decl (ctx : RecastContext) (c : StateCell) : StateDecl :=
  { name := c.name, setter := c.setter, initial := c.initial.map (Recast.text ctx), type := c.type }

def RefCell.decl (ctx : RecastContext) (c : RefCell) : RefDecl :=
  if c.element then
    { name := c.name, initial := some "null", type := some (Members.elementType c.type) }
  else
    { name := c.name, initial := c.initial.map (Recast.text ctx)
      type := c.type.map fun t => if t == "" then t else Members.withoutSubscription t }

def ConstantCell.decl (ctx : RecastContext) (c : ConstantCell) : ConstDecl :=
  match c.value.map (Recast.text ctx) with
  | some v => { name := c.name, value := v, type := c.type }
  | none =>
      { name := c.name, value := "undefined"
        type := c.type.map fun t => if t == "" then t else t ++ " | undefined" }

def MethodModel.decl (ctx : RecastContext) (m : MethodModel) : FunctionDecl :=
  { name := m.name, params := m.params, body := Recast.text ctx m.body, returnType := m.returnType
    isAsync := m.isAsync }

def GetterModel.decl (ctx : RecastContext) (g : GetterModel) : ConstDecl :=
  { name := g.name, value := Members.getterValue (Recast.text ctx g.body), type := g.type }

@[simp]
theorem StateCell.decl_name (ctx : RecastContext) (c : StateCell) : (c.decl ctx).name = c.name := rfl

@[simp]
theorem RefCell.decl_name (ctx : RecastContext) (c : RefCell) : (c.decl ctx).name = c.name := by
  unfold RefCell.decl
  split <;> rfl

@[simp]
theorem ConstantCell.decl_name (ctx : RecastContext) (c : ConstantCell) :
    (c.decl ctx).name = c.name := by
  unfold ConstantCell.decl
  split <;> rfl

@[simp]
theorem MethodModel.decl_name (ctx : RecastContext) (m : MethodModel) : (m.decl ctx).name = m.name :=
  rfl

@[simp]
theorem GetterModel.decl_name (ctx : RecastContext) (g : GetterModel) : (g.decl ctx).name = g.name :=
  rfl

namespace Members

theorem value_prepares (ctx : RecastContext) (v : Option String) :
    Prepares index (value ctx v) (v.map (Recast.text ctx)) := by
  cases v with
  | none => exact .pure none
  | some v => exact (body_prepares ctx v).bind (.pure _)

theorem refDecl_prepares (ctx : RecastContext) (c : RefCell) :
    Prepares index (refDecl ctx c) (c.decl ctx) := by
  unfold refDecl RefCell.decl
  split
  · exact .pure _
  · exact (value_prepares ctx c.initial).bind (.pure _)

theorem constDecl_prepares (ctx : RecastContext) (c : ConstantCell) :
    Prepares index (constDecl ctx c) (c.decl ctx) := by
  refine (value_prepares ctx c.value).bind ?_
  unfold ConstantCell.decl
  cases c.value.map (Recast.text ctx) with
  | some v => exact .pure _
  | none => exact .pure _

theorem functionDecl_prepares (ctx : RecastContext) (m : MethodModel) :
    Prepares index (functionDecl ctx m) (m.decl ctx) :=
  (body_prepares ctx m.body).bind (.pure _)

/-- The body of a model before its dependencies are put in front. -/
def bodyOf (m : ModelBase) (ctx : RecastContext) (effects : List EffectDecl) : FunctionBody where
  state := m.state.map (·.decl ctx)
  refs := m.refs.map (·.decl ctx)
  constants := m.constants.map (·.decl ctx)
  functions := m.methods.map (·.decl ctx)
  derived := m.getters.map (·.decl ctx)
  effects := effects

theorem convert_runs (m : ModelBase) (ctx : RecastContext) (d : Draft) :
    Runs (convert m ctx) d fun _ d' =>
      ∃ effects, Draft.Prepares index { d with body := bodyOf m ctx effects } d' := by
  have effect (e : Effect) : ∃ decl, Prepares index (Members.effect ctx e) decl :=
    ⟨_, (body_prepares ctx e.body).bind ((body_prepares ctx e.cleanup).bind (.pure _))⟩
  choose decl effect using effect
  have state (c : StateCell) : Prepares index (do
      return { name := c.name, setter := c.setter, initial := ← value ctx c.initial, type := c.type
               : StateDecl }) (c.decl ctx) :=
    (value_prepares ctx c.initial).bind (.pure _)
  have getter (g : GetterModel) : Prepares index (do
      return { name := g.name, value := getterValue (← Converting.body ctx g.body), type := g.type
               : ConstDecl }) (g.decl ctx) :=
    (body_prepares ctx g.body).bind (.pure _)
  unfold convert
  refine (Prepares.mapM fun c _ => state c).follow (.refl d) fun d₁ h₁ => ?_
  extract_lets rest
  have filled (d₁ : Draft) (h₁ : d.Prepares index d₁) : Runs (rest ()) d₁ fun _ d' =>
      ∃ effects, Draft.Prepares index { d with body := bodyOf m ctx effects } d' := by
    refine (Prepares.mapM fun c _ => refDecl_prepares ctx c).follow h₁ fun d₂ h₂ => ?_
    refine (Prepares.mapM fun c _ => constDecl_prepares ctx c).follow h₂ fun d₃ h₃ => ?_
    refine (Prepares.mapM fun f _ => functionDecl_prepares ctx f).follow h₃ fun d₄ h₄ => ?_
    refine (Prepares.mapM fun g _ => getter g).follow h₄ fun d₅ h₅ => ?_
    refine (Prepares.mapM fun e _ => effect e).follow h₅ fun d₆ h₆ => ?_
    have written (d' : Draft) (h : d.Prepares index d') (effects : List EffectDecl) :
        Draft.Prepares index { d with body := bodyOf m ctx effects }
          { d' with body := bodyOf m ctx effects } := by
      refine ⟨?_, h.known⟩
      rw [h.same]
    dsimp only
    split
    · exact (react_prepares _).follow h₆ fun d₇ h₇ => .modify ⟨_, written d₇ h₇ _⟩
    · exact .modify ⟨_, written d₆ h₆ _⟩
  split
  · exact (react_prepares _).follow h₁ fun d₂ h₂ => filled d₂ h₂
  · exact filled d₁ h₁

theorem listenerEffects_runs (ctx : RecastContext) (host : Option String) (ls : List HostListener)
    (d : Draft) : Runs (listenerEffects ctx host ls) d fun _ d' => d.Prepares index d' := by
  have one (l : HostListener) (d : Draft) :
      Runs (listenerEffect ctx host l) d fun _ d' => d.Prepares index d' := by
    unfold listenerEffect
    dsimp -zeta only
    split
    · exact (warn_prepares _).follow (.refl d) fun _ h => .pure h
    · exact (expression_runs _ _ _ d).bind fun _ _ h => .pure h
  exact (Runs.prepares_mapM (fun l _ d => one l d) d).bind fun _ _ h => .pure h

/-! ### Dependencies -/

/-- The calls that give access to the router. -/
def routerCalls : List String :=
  [navigateCall, "const location = useLocation();", "const params = useParams();",
   "const [searchParams] = useSearchParams();"]

/-- The call declares a variable of the name: a blank or a colon ends it. -/
def Declares (call name : String) : Prop :=
  ∃ c, (c = ' ' ∨ c = ':') ∧ ∃ rest, call.toList = "const ".toList ++ name.toList ++ c :: rest

/-- Framework classes that are declared under the name of the dependency. -/
def namedProviders : List String :=
  "HttpClient" :: "ElementRef" :: Framework.unsupportedProviders

/-- What stands for a dependency: a variable of its name, a ref to the host element unless there is one,
and for other framework classes calls of the router or nothing. -/
inductive Provides (elementRefs : Table String) (present : List String) (dep : Injected) :
    List String × List RefDecl → Prop
  | value {call : String}
      (standing : dep.kind = .builtin → dep.typeName ∈ namedProviders ∧ dep.typeName ≠ "ElementRef")
      (declares : Declares call dep.name) : Provides elementRefs present dep ([call], [])
  | router {calls : List String} (kind : dep.kind = .builtin) (other : dep.typeName ∉ namedProviders)
      (all : ∀ call ∈ calls, call ∈ routerCalls) : Provides elementRefs present dep (calls, [])
  | element {name : String} (kind : dep.kind = .builtin) (typeName : dep.typeName = "ElementRef")
      (named : name = (elementRefs.get? dep.name).getD dep.name) (absent : name ∉ present) :
      Provides elementRefs present dep
        ([], [{ name, initial := some "null", type := some "HTMLElement" }])
  | given (kind : dep.kind = .builtin) (typeName : dep.typeName = "ElementRef")
      (taken : (elementRefs.get? dep.name).getD dep.name ∈ present) :
      Provides elementRefs present dep ([], [])

theorem routerCall_prepares (use hook call : String) (d : Draft) :
    Runs (routerCall use hook call) d fun calls d' =>
      (calls = [] ∨ calls = [call]) ∧ d'.uses = d.uses ∧ d.Prepares index d' := by
  refine .get_bind ?_
  split
  · exact .modify_bind (.pure ⟨.inr rfl, rfl, rfl, fun h => h.fromPackage _ _⟩)
  · exact .pure ⟨.inl rfl, rfl, .refl d⟩

/-- Two calls of the router, each made only when it is needed. -/
theorem routerCalls_prepares {first second : String} (hf : first ∈ routerCalls)
    (hs : second ∈ routerCalls) (use hook use' hook' : String) (elementRefs : Table String)
    (present : List String) {dep : Injected} (kind : dep.kind = .builtin)
    (other : dep.typeName ∉ namedProviders) (d : Draft) :
    Runs (do
      let calls ← routerCall use hook first
      let more ← routerCall use' hook' second
      return (calls ++ more, [])) d fun r d' =>
      d.Prepares index d' ∧ Provides elementRefs present dep r := by
  have one {name call : String} {calls : List String} (mem : name ∈ routerCalls)
      (h : calls = [] ∨ calls = [name]) (hc : call ∈ calls) : call ∈ routerCalls := by
    rcases h with rfl | rfl
    · cases hc
    · rwa [List.mem_singleton.mp hc]
  refine (@routerCall_prepares index use hook first d).bind fun calls d₁ h₁ => ?_
  refine (@routerCall_prepares index use' hook' second d₁).bind fun more d₂ h₂ => .pure ?_
  refine ⟨h₁.2.2.trans h₂.2.2, .router kind other fun call hc => ?_⟩
  rcases List.mem_append.mp hc with hc | hc
  · exact one hf h₁.1 hc
  · exact one hs h₂.1 hc

theorem dependencyHook_runs (sound : SymbolIndex.Sound ds index) (elementRefs : Table String)
    (provided : List String) {dep : Injected}
    (service : dep.kind = .service → Model.TargetsService index dep) (d : Draft) :
    Runs (dependencyHook elementRefs provided dep) d fun r d' => d.Prepares index d' ∧
      Provides elementRefs (provided ++ d.body.refs.map (·.name)) dep r := by
  unfold dependencyHook
  split
  · rename_i kind
    have known := (service kind).known sound
    refine .modify_bind (.pure ⟨⟨rfl, fun h => h.named known _⟩, .value (fun builtin => ?_) ?_⟩)
    · simp [kind] at builtin
    · exact ⟨' ', .inl rfl, by simp [toString]⟩
  · rename_i kind
    refine .pure ⟨.refl d, .value (fun builtin => ?_) ?_⟩
    · simp [kind] at builtin
    · exact ⟨':', .inr rfl, by simp [toString]⟩
  · rename_i kind
    split
    · rename_i typeName
      refine routerCalls_prepares (by simp [routerCalls]) (by simp [routerCalls]) _ _ _ _ _ _ kind ?_ d
      simp [typeName, namedProviders, Framework.unsupportedProviders]
    · rename_i typeName
      refine routerCalls_prepares (by simp [routerCalls]) (by simp [routerCalls]) _ _ _ _ _ _ kind ?_ d
      simp [typeName, namedProviders, Framework.unsupportedProviders]
    · rename_i typeName
      refine .modify_bind (.pure ⟨⟨rfl, fun h => h.named ArtifactRef.known_httpClient _⟩,
        .value (fun _ => ?_) ?_⟩)
      · simp [typeName, namedProviders]
      · exact ⟨' ', .inl rfl, by simp [toString]⟩
    · rename_i typeName
      refine .get_bind ?_
      dsimp only
      split
      · rename_i present
        refine .pure ⟨.refl d, .given kind typeName ?_⟩
        simpa using present
      · rename_i absent
        refine .pure ⟨.refl d, .element kind typeName rfl ?_⟩
        simpa [not_or] using absent
    · rename_i client element
      split
      · rename_i unsupported
        refine .pure ⟨.refl d, .value (fun _ => ⟨?_, element⟩) ?_⟩
        · exact List.mem_cons_of_mem _ (List.mem_cons_of_mem _ (by simpa using unsupported))
        · exact ⟨':', .inr rfl, by simp [toString]⟩
      · rename_i supported
        refine .pure ⟨.refl d, .router kind ?_ (by simp)⟩
        simp only [namedProviders, List.mem_cons, not_or]
        exact ⟨client, element, by simpa using supported⟩

/-- The body with what stands for the dependencies put in front. -/
def injecting (found : List (List String × List RefDecl)) (extra : List String)
    (b : FunctionBody) : FunctionBody :=
  { b with
    hookCalls := found.flatMap (·.1) ++ extra ++ b.hookCalls
    refs := found.flatMap (·.2) ++ b.refs }

/-- Navigation is called for even if no dependency gives it. -/
theorem dependencyHooks_runs (sound : SymbolIndex.Sound ds index) {m : ModelBase}
    (elementRefs : Table String) (provided : List String)
    (service : ∀ dep ∈ m.dependencies, dep.kind = .service → Model.TargetsService index dep)
    (d : Draft) :
    Runs (dependencyHooks m elementRefs provided) d fun _ d' => ∃ found extra,
      List.Forall₂ (Provides elementRefs (provided ++ d.body.refs.map (·.name)))
        m.dependencies found ∧
      (extra = [] ∨ extra = [navigateCall]) ∧
      Draft.Prepares index { d with body := injecting found extra d.body } d' := by
  refine (Runs.mapM (I := fun d' => d.Prepares index d') (.refl d) fun dep hd d' h =>
    (dependencyHook_runs sound elementRefs provided (service dep hd) d').mono
      fun r d'' next => ⟨h.trans next.1, h.body ▸ next.2⟩).bind fun found d₁ h₁ => ?_
  obtain ⟨prepared, provides⟩ := h₁
  have written (extra : List String) (none : extra = [] ∨ extra = [navigateCall]) (d' : Draft)
      (h : d.Prepares index d') : Runs (do
        Converting.modifyBody fun b =>
          { b with hookCalls := found.flatMap (·.1) ++ extra ++ b.hookCalls
                   refs := found.flatMap (·.2) ++ b.refs }
        if !(← get).body.refs.isEmpty then Converting.react ["useRef"]) d' fun _ d' =>
      ∃ found extra,
        List.Forall₂ (Provides elementRefs (provided ++ d.body.refs.map (·.name)))
          m.dependencies found ∧
        (extra = [] ∨ extra = [navigateCall]) ∧
        Draft.Prepares index { d with body := injecting found extra d.body } d' := by
    have same : Draft.Prepares index { d with body := injecting found extra d.body }
        { d' with body := injecting found extra d'.body } := by
      refine ⟨?_, h.known⟩
      rw [h.same]
    refine .modify_bind (.get_bind ?_)
    split
    · exact (react_prepares _ _).mono fun _ _ next =>
        ⟨found, extra, provides, none, same.trans next.2⟩
    · exact .pure ⟨found, extra, provides, none, same⟩
  dsimp only
  split
  · simp only [pure_bind]
    exact written [] (.inl rfl) d₁ prepared
  · refine (@routerCall_prepares index _ _ _ d₁).bind fun extra d₂ h₂ => ?_
    exact written extra h₂.1 d₂ (prepared.trans h₂.2.2)

end Members

end ReactMigration
