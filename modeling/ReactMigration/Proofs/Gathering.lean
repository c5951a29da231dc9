import ReactMigration.Conversion.Regions
import ReactMigration.Proofs.Outcome
import ReactMigration.Proofs.Recasting

/-!
What conversions bring in, and how they break off.

Every import that a conversion adds to what it starts with is a library name from a fixed table or the
module of a class that the converted part names.  A conversion breaks off over templates that show one
another without end only where a template's content is asked for.
-/

namespace ReactMigration

open ReactMigration.Template
open Relation (ReflTransGen)

variable {α β : Type}

/-! ### Outcomes -/

namespace Converting

/-- What a conversion comes to, from a draft and what has been noted before. -/
def outcome (m : Converting α) (d : Draft) (t : Sink) : Except Fault (α × Draft) × Sink :=
  (m.run d).run.run t

theorem outcome_bind (m : Converting α) (f : α → Converting β) (d : Draft) (t : Sink) :
    outcome (m >>= f) d t =
      match outcome m d t with
      | (.ok (a, d'), t') => outcome (f a) d' t'
      | (.error e, t') => (.error e, t') := by
  simp only [outcome, StateT.run_bind, ExceptT.run_bind]
  rcases (m.run d).run.run t with ⟨_ | ⟨a, d'⟩, t'⟩ <;> rfl

/-- From some draft the conversion gives the value. -/
def Gives (m : Converting α) (a : α) : Prop :=
  ∃ d t d' t', outcome m d t = (.ok (a, d'), t')

namespace Gives

theorem pure {a b : α} (h : Gives (Pure.pure a) b) : b = a := by
  obtain ⟨d, t, d', t', run⟩ := h
  cases run
  rfl

/-- A value is given by way of the value of the first part. -/
theorem bind {m : Converting α} {f : α → Converting β} {b : β} (h : Gives (m >>= f) b) :
    ∃ a, Gives m a ∧ Gives (f a) b := by
  obtain ⟨d, t, d', t', run⟩ := h
  rw [outcome_bind] at run
  split at run
  · rename_i a d₁ t₁ first
    exact ⟨a, ⟨d, t, d₁, t₁, first⟩, d₁, t₁, d', t', run⟩
  · cases run

theorem throw {f : Fault} {a : α} : ¬ Gives (MonadExcept.throw f : Converting α) a := by
  rintro ⟨d, t, d', t', ⟨⟩⟩

theorem lift {r : Except Fault α} {a : α} (h : Gives (liftM (Noting.lift r)) a) : r = .ok a := by
  obtain ⟨d, t, d', t', run⟩ := h
  cases r with
  | error f => cases run
  | ok b =>
      cases run
      rfl

/-- Values of a list are given one by one. -/
theorem mapM {f : α → Converting β} :
    ∀ {l : List α} {bs : List β}, Gives (l.mapM f) bs → ∀ a ∈ l, ∃ b, Gives (f a) b
  | [], _, _ => by simp
  | a :: l, bs, h => by
      rw [List.mapM_cons] at h
      obtain ⟨b, first, h⟩ := h.bind
      obtain ⟨bs, rest, _⟩ := h.bind
      exact List.forall_mem_cons.mpr ⟨⟨b, first⟩, rest.mapM⟩

/-- A given value has what every run ensures. -/
theorem ensured {m : Converting α} {P : α → Prop} {a : α} (h : Gives m a)
    (runs : ∀ d, Runs m d fun a _ => P a) : P a := by
  obtain ⟨d, t, d', t', run⟩ := h
  exact (runs d t).2 (a, d') (congrArg Prod.fst run)

end Gives

/-- What a conversion gives at the start of a unit. -/
def value? (m : Converting α) : Option α :=
  match (outcome m {} { unit := "" }).1 with
  | .ok (a, _) => some a
  | .error _ => none

theorem gives_of_value? {m : Converting α} {a : α} (found : m.value? = some a) : Gives m a := by
  unfold value? at found
  split at found
  · rename_i a d' result
    obtain rfl := Option.some.inj found
    exact ⟨{}, { unit := "" }, d', _, Prod.ext result rfl⟩
  · cases found

end Converting

open Converting (outcome outcome_bind)

/-! ### Imports that may be brought in -/

/-- Values of the view library that generated code uses. -/
def viewNames : List String :=
  ["Fragment", "useRef", "useMemo", "useState", "useEffect", "createContext", "useContext"]

/-- Types of the view library that generated code uses. -/
def viewTypes : List String :=
  ["ReactNode", "RefObject", "ElementType"]

/-- Values of the router that generated code uses. -/
def routerNames : List String :=
  ["Link", "NavLink", "Outlet", "Navigate", "useNavigate", "useLocation", "useParams",
   "useSearchParams", "useRoutes"]

/-- What generated code uses of the shared modules. -/
def sharedNames : List (ArtifactRef × String) :=
  [(Support.classNames, "classNames"), (Support.observableValue, "useObservableValue"),
   (Support.httpClient, "useHttpClient")] ++ Framework.pipes.values.map (Support.pipes, ·)

/-- The imports of libraries and shared modules, one name each. -/
def libraryImports : List ImportSpec :=
  viewNames.map (fun n => { names := [n], module := some "react" }) ++
  viewTypes.map (fun n => { names := [n], module := some "react", typeOnly := true }) ++
  routerNames.map (fun n => { names := [n], module := some "react-router-dom" }) ++
  [{ names := ["RouteObject"], module := some "react-router-dom", typeOnly := true }] ++
  sharedNames.map fun (ref, n) => { names := [n], target := some ref }

/-- An import that a conversion may bring in, `T` telling which modules of units it may be from. -/
inductive Brings (T : ArtifactRef → Prop) (spec : ImportSpec) : Prop
  | library (listed : spec ∈ libraryImports)
  | unit {t : ArtifactRef} (target : spec.target = some t) (module : spec.module = none)
      (prune : spec.prune = false) (allowed : T t)

/-- Imports that were added one after another. -/
def Gathered (T : ArtifactRef → Prop) : Imports → Imports → Prop :=
  ReflTransGen fun i j => ∃ spec, Brings T spec ∧ j = i.add spec

theorem Gathered.refl {T : ArtifactRef → Prop} {i : Imports} : Gathered T i i :=
  ReflTransGen.refl

/-- More modules of units may be allowed. -/
theorem Gathered.mono {T T' : ArtifactRef → Prop} {i j : Imports} (h : Gathered T i j) (more : ∀ t, T t → T' t) :
    Gathered T' i j := by
  refine ReflTransGen.mono (fun i j step => ?_) i j h
  obtain ⟨spec, brings, same⟩ := step
  refine ⟨spec, ?_, same⟩
  cases brings with
  | library listed => exact .library listed
  | unit target module prune allowed => exact .unit target module prune (more _ allowed)

theorem Gathered.trans {T : ArtifactRef → Prop} {i j k : Imports} (h : Gathered T i j)
    (more : Gathered T j k) : Gathered T i k :=
  ReflTransGen.trans h more

/-! ### Gathering -/

/-- The work adds imports that may be brought in alone, and breaks off over templates without end only
if `endless`. -/
def Gathers (T : ArtifactRef → Prop) (endless : Prop) (m : Converting α) : Prop :=
  ∀ d t r t', outcome m d t = (r, t') →
    (∀ a d', r = .ok (a, d') → Gathered T d.imports d'.imports) ∧
      (r = .error .endlessTemplate → endless)

namespace Gathers

variable {T : ArtifactRef → Prop} {endless : Prop} {m : Converting α}

/-- Work that ends with a value, having changed the draft. -/
theorem ends {d d' : Draft} {a : α} {r : Except Fault (α × Draft)} (h : .ok (a, d') = r)
    (gathered : Gathered T d.imports d'.imports) :
    (∀ a d', r = .ok (a, d') → Gathered T d.imports d'.imports) ∧
      (r = .error .endlessTemplate → endless) := by
  subst h
  constructor
  · rintro _ _ ⟨⟩
    exact gathered
  · rintro ⟨⟩

/-- Work that breaks off. -/
theorem breaks {d : Draft} {f : Fault} {r : Except Fault (α × Draft)} (h : .error f = r)
    (only : f = .endlessTemplate → endless) :
    (∀ a d', r = .ok (a, d') → Gathered T d.imports d'.imports) ∧
      (r = .error .endlessTemplate → endless) := by
  subst h
  constructor
  · rintro _ _ ⟨⟩
  · rintro ⟨⟩
    exact only rfl

theorem pure (a : α) : Gathers T endless (Pure.pure a : Converting α) :=
  fun _ _ _ _ h => ends (congrArg Prod.fst h) .refl

theorem bind {f : α → Converting β} (hm : Gathers T endless m)
    (hf : ∀ a, Gathers T endless (f a)) : Gathers T endless (m >>= f) := by
  intro d t r t' h
  rw [outcome_bind] at h
  rcases first : outcome m d t with ⟨_ | ⟨a, d₁⟩, t₁⟩
  · rw [first] at h
    refine breaks (congrArg Prod.fst h) fun same => ?_
    subst same
    exact (hm d t _ _ first).2 rfl
  · rw [first] at h
    obtain ⟨grown, fault⟩ := hf a d₁ t₁ r t' h
    exact ⟨fun b e same => ((hm d t _ _ first).1 a d₁ rfl).trans (grown b e same), fault⟩

theorem throw {f : Fault} (h : f = .endlessTemplate → endless) :
    Gathers T endless (MonadExcept.throw f : Converting α) :=
  fun _ _ _ _ run => breaks (congrArg Prod.fst run) h

theorem get : Gathers T endless (MonadState.get : Converting Draft) :=
  fun _ _ _ _ h => ends (congrArg Prod.fst h) .refl

theorem modify {f : Draft → Draft} (h : ∀ d, Gathered T d.imports (f d).imports) :
    Gathers T endless (modify f : Converting PUnit) :=
  fun d _ _ _ run => ends (congrArg Prod.fst run) (h d)

theorem warnAt (code : DiagnosticCode) (message : String) (line column : Option Int) :
    Gathers T endless (liftM (Noting.warnAt code message line column) : Converting Unit) :=
  fun _ _ _ _ h => ends (congrArg Prod.fst h) .refl

/-- The value of work that notes nothing is known to be its result. -/
theorem lift_bind {r : Except Fault α} {f : α → Converting β} (spared : r ≠ .error .endlessTemplate)
    (hf : ∀ a, r = .ok a → Gathers T endless (f a)) :
    Gathers T endless (liftM (Noting.lift r) >>= f) := by
  cases r with
  | error f =>
      exact fun _ _ _ _ run => breaks (congrArg Prod.fst run) fun same =>
        absurd (congrArg Except.error same) spared
  | ok a => exact hf a rfl

theorem lift {r : Except Fault α} (spared : r ≠ .error .endlessTemplate) :
    Gathers T endless (liftM (Noting.lift r) : Converting α) := by
  have h : Gathers T endless (liftM (Noting.lift r) >>= Pure.pure : Converting α) :=
    lift_bind spared fun a _ => .pure a
  rwa [bind_pure] at h

theorem mapM {f : α → Converting β} :
    ∀ {l : List α}, (∀ a ∈ l, Gathers T endless (f a)) → Gathers T endless (l.mapM f)
  | [], _ => by
      simp only [List.mapM_nil]
      exact pure []
  | a :: l, h => by
      simp only [List.mapM_cons]
      refine (h a List.mem_cons_self).bind fun b => ?_
      refine (mapM fun a' ha' => h a' (List.mem_cons_of_mem a ha')).bind fun bs => ?_
      exact pure (b :: bs)

theorem forM {f : α → Converting PUnit} :
    ∀ {l : List α}, (∀ a ∈ l, Gathers T endless (f a)) → Gathers T endless (l.forM f)
  | [], _ => pure PUnit.unit
  | a :: _, h =>
      (h a List.mem_cons_self).bind fun _ => forM fun a' ha' => h a' (List.mem_cons_of_mem a ha')

theorem foldlM {f : β → α → Converting β} :
    ∀ {l : List α} {b : β}, (∀ b, ∀ a ∈ l, Gathers T endless (f b a)) →
      Gathers T endless (l.foldlM f b)
  | [], b, _ => pure b
  | a :: l, b, h => by
      simp only [List.foldlM_cons]
      exact (h b a List.mem_cons_self).bind fun _ =>
        foldlM fun b a' ha' => h b a' (List.mem_cons_of_mem a ha')

end Gathers

/-! ### Faults of reading code -/

namespace Script

/-- Reading breaks off only where it looks back too far. -/
def OnlyLooksBack (r : Except Fault α) : Prop :=
  ∀ f, r = .error f → f = .historyExhausted

namespace OnlyLooksBack

variable {r : Except Fault α}

theorem ok (a : α) : OnlyLooksBack (.ok a) :=
  nofun

theorem bind {f : α → Except Fault β} (hr : OnlyLooksBack r) (hf : ∀ a, OnlyLooksBack (f a)) :
    OnlyLooksBack (r >>= f) := by
  cases r with
  | error e => exact fun f same => hr f (congrArg Except.error (Except.error.inj same))
  | ok a => exact hf a

theorem spared (h : OnlyLooksBack r) : r ≠ .error .endlessTemplate :=
  fun same => by cases h _ same

end OnlyLooksBack

theorem at_looksBack (h : History) (place : Int) : OnlyLooksBack (h.at place) := by
  intro f failed
  unfold History.at at failed
  grind

theorem regexMayStart_looksBack (h : History) : OnlyLooksBack h.regexMayStart := by
  have back := at_looksBack h
  unfold History.regexMayStart
  split
  · exact .ok _
  · exact .ok _
  · split
    · exact .ok _
    · split
      · exact (back _).bind fun _ => .ok _
      · split
        · extract_lets named rest
          have settled (v : Option String) : OnlyLooksBack (named v) := by
            unfold named
            split
            · refine (back _).bind fun check => ?_
              split <;> exact .ok _
            · exact .ok _
          have decided (v : Option String) : OnlyLooksBack (rest v) := by
            unfold rest
            split
            · refine (back _).bind fun check => ?_
              split <;> exact .ok _
            · split
              · exact (back _).bind fun v => settled v
              · exact .bind (.ok _) fun v => settled v
          split
          · exact (back _).bind fun v => decided v
          · exact .bind (.ok _) fun v => decided v
        · exact .ok _

/-- Reading a text faults only where it looks back too far. -/
theorem lexFrom_looksBack {f : Fault} :
    ∀ {fuel : Nat} {state : LexState} {fresh : Bool} {start : Nat} {done : List Token} {cs : List Char},
      lexFrom fuel state fresh start done cs = .error (.fault f) → f = .historyExhausted
  | 0, _, _, _, _, _, failed => by
      unfold lexFrom at failed
      cases failed
  | fuel + 1, state, fresh, start, done, cs, failed => by
      unfold lexFrom at failed
      split at failed
      · cases failed
      · cases failed
      · dsimp only at failed
        split at failed
        · rename_i slash
          cases failed
          split at slash
          · exact regexMayStart_looksBack _ f slash
          · cases slash
        · split at failed
          · cases failed
          · exact lexFrom_looksBack failed

theorem tokenize_looksBack (s : String) : OnlyLooksBack (tokenize s) := by
  intro f failed
  unfold tokenize at failed
  dsimp only at failed
  split at failed
  · cases failed
  · cases failed
  · rename_i read
    cases failed
    exact lexFrom_looksBack read

theorem extractIdentifiers_looksBack (s : String) : OnlyLooksBack (extractIdentifiers s) :=
  (tokenize_looksBack s).bind fun _ => .ok _

theorem renameIdentifiers_looksBack (s : String) (mapping : List (String × String)) :
    OnlyLooksBack (renameIdentifiers s mapping) := by
  unfold renameIdentifiers
  split
  · exact .ok _
  · exact (tokenize_looksBack s).bind fun _ => .ok _

end Script

theorem Recast.expressionBody_looksBack (ctx : RecastContext) (locals : Table String) (source : String) :
    Script.OnlyLooksBack (Recast.expressionBody ctx locals source) :=
  Script.renameIdentifiers_looksBack _ _

namespace Declaration

theorem asDirective_spared (d : Declaration) : d.asDirective ≠ .error .endlessTemplate := by
  cases d <;> simp [asDirective]

theorem publicNames_spared (d : Declaration) : d.publicNames ≠ .error .endlessTemplate := by
  cases d <;> simp [publicNames]

end Declaration

/-! ### Parts of a conversion -/

section Parts

variable {T : ArtifactRef → Prop} {endless : Prop}

theorem Gathered.add {i : Imports} {spec : ImportSpec} (h : Brings T spec) : Gathered T i (i.add spec) :=
  ReflTransGen.single ⟨spec, h, rfl⟩

theorem Gathered.fromPackage {module : String} :
    ∀ {names : List String} {i : Imports},
      (∀ n ∈ names, Brings T { names := [n], module := some module }) →
      Gathered T i (Imports.fromPackage module i names)
  | [], _, _ => .refl
  | n :: _, _, h =>
      (Gathered.add (h n List.mem_cons_self)).trans
        (fromPackage fun m hm => h m (List.mem_cons_of_mem n hm))

/-- The work changes the imports first, and from there adds imports that may be brought in alone. -/
def GathersFrom (start : Imports → Imports) (T : ArtifactRef → Prop) (m : Converting α) : Prop :=
  ∀ d t a d' t', outcome m d t = (.ok (a, d'), t') → Gathered T (start d.imports) d'.imports

theorem Gathers.after {start : Imports → Imports} {m : PUnit → Converting α} (endless : Prop)
    (h : Gathers T endless (m ⟨⟩)) : GathersFrom start T (Converting.imports start >>= m) :=
  fun d t a d' t' run => (h { d with imports := start d.imports } t (.ok (a, d')) t' run).1 a d' rfl

namespace Converting

theorem warn_gathers (message : String) : Gathers T endless (warn message) :=
  .warnAt _ _ _ _

theorem warnAt_gathers (message : String) (p : Position) : Gathers T endless (warnAt message p) :=
  .warnAt _ _ _ _

theorem shared_gathers {ref : ArtifactRef} {name : String} (h : (ref, name) ∈ sharedNames) :
    Gathers T endless (imports fun i => i.named ref name) := by
  refine .modify fun d => .add (.library ?_)
  simp only [libraryImports, List.mem_append]
  exact .inr (List.mem_map.mpr ⟨_, h, rfl⟩)

theorem named_gathers {ref : ArtifactRef} (allowed : T ref) (name : String) :
    Gathers T endless (imports fun i => i.named ref name) :=
  .modify fun _ => .add (.unit rfl rfl rfl allowed)

theorem defaultOf_gathers {ref : ArtifactRef} (allowed : T ref) (name : String) :
    Gathers T endless (imports fun i => i.defaultOf ref name) :=
  .modify fun _ => .add (.unit rfl rfl rfl allowed)

theorem react_gathers {names : List String} (h : ∀ n ∈ names, n ∈ viewNames := by decide) :
    Gathers T endless (react names) := by
  refine .modify fun d => .fromPackage fun n hn => .library ?_
  simp only [libraryImports, List.mem_append, List.mem_map]
  exact .inl (.inl (.inl (.inl ⟨n, h n hn, rfl⟩)))

theorem router_gathers {names : List String} (h : ∀ n ∈ names, n ∈ routerNames := by decide) :
    Gathers T endless (router names) := by
  refine .modify fun d => .fromPackage fun n hn => .library ?_
  simp only [libraryImports, List.mem_append, List.mem_map]
  exact .inl (.inl (.inr ⟨n, h n hn, rfl⟩))

theorem uses_gathers (hook : String) : Gathers T endless (uses hook) := by
  refine .modify fun d => ?_
  split <;> exact .refl

theorem recasting_gathers (r : Recasting α) : Gathers T endless (recasting r) := by
  refine Gathers.get.bind fun d => ?_
  refine .bind (.modify fun d => .refl) fun _ => ?_
  exact (Gathers.forM fun message _ => warn_gathers message).bind fun _ => .pure _

theorem body_gathers (ctx : RecastContext) (source : String) :
    Gathers T endless (body ctx source) := by
  unfold body
  split
  · exact recasting_gathers _
  · rename_i refused
    obtain ⟨refusal, rfl⟩ := Recast.refusal?_eq_some refused
    exact (recasting_gathers _).bind fun _ => .throw fun same => nomatch same

theorem expression_gathers (ctx : RecastContext) (locals : Table String) (source : String) :
    Gathers T endless (expression ctx locals source) :=
  .lift_bind (Recast.expressionBody_looksBack ctx locals source).spared fun source _ => body_gathers ctx source

theorem statements_gathers (ctx : RecastContext) (locals : Table String) (handler : String) :
    Gathers T endless (statements ctx locals handler) :=
  .mapM fun source _ => expression_gathers ctx locals source

theorem unique_gathers (base : String) : Gathers T endless (unique base) :=
  Gathers.get.bind fun _ => .bind (.modify fun _ => .refl) fun _ => .pure _

theorem modifyBody_gathers (f : FunctionBody → FunctionBody) : Gathers T endless (modifyBody f) :=
  .modify fun _ => .refl

end Converting

end Parts

end ReactMigration
