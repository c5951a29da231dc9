import ReactMigration.Conversion.Regions
import ReactMigration.Proofs.Linking
import ReactMigration.Proofs.Steps

/-!
Converting any node of a linked template moves the draft of its module by steps alone.
-/

namespace ReactMigration

open ReactMigration.Template
open Relation (ReflTransGen)

variable {index : SymbolIndex} {ds : List Declaration}

open Converting (warn_steps warnAt_steps named_steps defaultOf_steps react_steps router_steps
  uses_steps expression_steps statements_steps unique_runs)

/-! ### Bound values -/

namespace Scope

variable {env : TemplateEnv}

theorem scopeExpression_steps (s : Scope) (text : String) : Steps index (s.expression env text) :=
  expression_steps _ _ _

theorem pipeFunction_steps (sound : SymbolIndex.Sound ds env.index) (name : String) :
    Steps env.index (pipeFunction env name) := by
  unfold pipeFunction
  split
  · exact (named_steps ArtifactRef.known_pipes _).bind fun _ => .pure _
  · split
    · rename_i unit d found
      refine (named_steps ?_ _).bind fun _ => .pure _
      exact .symbol (sound.registered_of_pipe found) (by simp [Declaration.kind]) rfl
    · exact .pure _

theorem warnMaybeAt_steps (message : String) (p : Option Position) :
    Steps index (warnMaybeAt message p) := by
  cases p with
  | some p => exact warnAt_steps message p
  | none => exact warn_steps message

/-- An awaited value gets a variable of its own. -/
theorem await_steps (s : Scope) (code : String) (preferred : Option String) (p : Option Position) :
    Steps index (s.await code preferred p) := by
  unfold await
  extract_lets locals base
  refine (Moves.lifted (.lift fun _ _ => trivial)).bind fun names => ?_
  split
  · exact (warnMaybeAt_steps _ p).bind fun _ => .pure _
  · intro d
    refine .get_bind ?_
    split
    · exact .pure .refl
    · refine (unique_runs _ d).bind fun name d' made => ?_
      obtain ⟨free, rfl⟩ := made
      refine .modify_bind (.modify_bind ?_)
      have imported : Steps index (do
          Converting.imports fun i => i.named Support.observableValue "useObservableValue"
          return name) :=
        (named_steps ArtifactRef.known_observableValue _).bind fun _ => .pure name
      exact imported.after (.await d name _ (d.asyncValues.set code name) free)

theorem dependenciesOf_runs (sources : List String) (d : Draft) :
    Runs (dependenciesOf sources) d fun _ d' => d' = d := by
  have each : ∀ source ∈ sources, ∀ d', d' = d →
      Runs (liftM (Noting.lift (Script.extractIdentifiers source)) : Converting (List String)) d'
        fun _ d'' => d'' = d ∧ True :=
    fun _ _ _ same => .lifted (.lift fun _ _ => ⟨same, trivial⟩)
  exact (Runs.mapM (I := fun d' => d' = d) (R := fun _ _ => True) rfl each).bind
    fun _ _ kept => .pure kept.1

/-- A remembered value gets a variable of its own. -/
theorem remember_steps (code function : String) (sources : List String) (preferred : Option String) :
    Steps index (remember code function sources preferred) := by
  unfold remember
  intro d
  refine .get_bind ?_
  split
  · exact .pure .refl
  · rename_i new
    refine (dependenciesOf_runs sources d).bind fun deps d' kept => ?_
    obtain rfl := kept
    refine (unique_runs _ d').bind fun name d' made => ?_
    obtain ⟨free, rfl⟩ := made
    refine .modify_bind (.modify_bind ?_)
    have imported : Steps index (do Converting.react ["useMemo"]; return name) :=
      (react_steps ["useMemo"]).bind fun _ => .pure name
    exact imported.after (.remember _ name code deps free new)

theorem applyPipes_steps (sound : SymbolIndex.Sound ds env.index) (s : Scope)
    (preferred : Option String) (p : Option Position) (steps : List PipeStep) :
    ∀ progress, Steps env.index (applyPipes env s preferred p progress steps) := by
  induction steps with
  | nil => exact fun progress => .pure progress
  | cons step steps ih =>
      intro progress
      unfold applyPipes
      refine (Moves.mapM fun _ _ => scopeExpression_steps s _).bind fun args => ?_
      split
      · exact (await_steps s _ _ p).bind fun _ => ih _
      · exact (pipeFunction_steps sound step.name).bind fun _ => ih _

theorem bound_steps (sound : SymbolIndex.Sound ds env.index) (s : Scope) (value : BoundValue)
    (preferred : Option String) (p : Option Position) :
    Steps env.index (s.bound env value preferred p) := by
  unfold bound
  split
  · exact scopeExpression_steps s _
  · refine (scopeExpression_steps s _).bind fun code => ?_
    refine (applyPipes_steps sound s preferred p _ _).bind fun result => ?_
    split
    · split
      · exact remember_steps _ _ _ _
      · exact .pure _
    · exact .pure _

theorem boundAt_steps (sound : SymbolIndex.Sound ds env.index) (s : Scope) (value : BoundValue)
    (p : Position) : Steps env.index (s.boundAt env value p) :=
  bound_steps sound s value none (some p)

end Scope

open Scope (scopeExpression_steps bound_steps boundAt_steps)

/-! ### Attributes -/

theorem ofBinding_steps (ctx : RecastContext) (locals : Table String) (name handler : String)
    (p : Position) (twoWay component : Bool) (formValue : Option String) :
    Steps index (Handler.ofBinding ctx locals name handler p twoWay component formValue) := by
  unfold Handler.ofBinding
  split
  split
  · exact (warnAt_steps _ p).bind fun _ => .pure _
  · extract_lets
    split
    exact (statements_steps _ _ _).bind fun _ => .pure _

namespace PropBag

variable {env : TemplateEnv}

theorem finish_steps (b : PropBag) (activeClass : Option String) :
    Steps index (b.finish activeClass) := by
  have classes : Steps index (b.classAttr activeClass) := by
    unfold classAttr
    extract_lets
    split
    · exact .pure _
    · split
      · exact (named_steps ArtifactRef.known_classNames _).bind fun _ => .pure _
      · split
        · exact .pure _
        · exact (named_steps ArtifactRef.known_classNames _).bind fun _ => .pure _
  exact classes.bind fun _ => .pure _

theorem static_steps (b : PropBag) (name : String) (value : Option String) (p : Position)
    (isComponent : Bool) : Steps index (b.static name value p isComponent) := by
  unfold static
  split
  · exact .pure _
  · extract_lets text prop set rest
    have placed : Steps index (rest ()) := by
      unfold rest
      split
      · exact (warnAt_steps _ p).bind fun _ => .pure _
      · split
        · exact .pure _
        · split <;> exact .pure _
    split
    · exact (warnAt_steps _ p).bind fun _ => placed
    · exact placed

theorem directiveValue_steps (sound : SymbolIndex.Sound ds env.index) (s : Scope)
    (value : Option BoundValue) (p : Position) : Steps env.index (directiveValue env s value p) := by
  unfold directiveValue
  split
  · exact boundAt_steps sound s _ p
  · exact .throw _

theorem builtinDirective_steps (sound : SymbolIndex.Sound ds env.index) (s : Scope) (b : PropBag)
    (name : String) (expression : Option String) (value : Option BoundValue) (p : Position)
    (isBound : Bool) :
    Steps env.index (builtinDirective env s b name expression value p isBound) := by
  unfold builtinDirective
  split
  · split
    · exact (directiveValue_steps sound s value p).bind fun _ => .pure _
    · exact .pure _
  · split
    · split
      · exact (directiveValue_steps sound s value p).bind fun _ => .pure _
      · exact (warnAt_steps _ p).bind fun _ => .pure _
    · exact .pure _

end PropBag

/-! ### Custom directives -/

/-- Every directive that is used was found in the index under its name. -/
theorem directiveUses_registered (sound : SymbolIndex.Sound ds index) :
    ∀ (attributes : List Attribute) (position : Nat) (claimed : List String)
      (uses : List DirectiveUse), directiveUses index position claimed attributes = .ok uses →
      ∀ u ∈ uses, index.Registered u.symbol
  | [], _, _, uses, h, u, hu => by
      cases h
      cases hu
  | attr :: rest, position, claimed, uses, h, u, hu => by
      have tail := directiveUses_registered sound rest (position + 1)
      unfold directiveUses at h
      split at h
      · split at h
        · rename_i resolved symbol found
          have registered : index.Registered symbol := by
            split at found
            · cases found
            · exact sound.registered_of_lookup found
          obtain ⟨pair, _, h⟩ := ok_of_bind h
          obtain ⟨later, more, h⟩ := ok_of_bind h
          cases h
          rcases List.mem_cons.mp hu with rfl | hu
          · exact registered
          · exact tail _ later more u hu
        · exact tail claimed uses h u hu
      · exact tail claimed uses h u hu

section Elements

variable {env : TemplateEnv}

theorem directiveOptions_steps (sound : SymbolIndex.Sound ds env.index) (s : Scope) (u : DirectiveUse)
    (attributes : List Attribute) : Steps env.index (directiveOptions env s u attributes) := by
  have own : Steps env.index (ownOption env s u) := by
    unfold ownOption
    split
    · split
      · exact .pure _
      · split
        · exact (PropBag.directiveValue_steps sound s _ _).bind fun _ => .pure _
        · split <;> exact .pure _
    · exact .pure _
  have other (attr : Attribute) : Steps env.index (otherOption env s u attr) := by
    unfold otherOption
    split
    · split <;> exact .pure _
    · split
      · exact (boundAt_steps sound s _ _).bind fun _ => .pure _
      · exact .pure _
    · split
      · refine (ofBinding_steps _ _ _ _ _ _ _ _).bind fun h => ?_
        split <;> exact .pure _
      · exact .pure _
    · exact .pure _
  unfold directiveOptions
  exact own.bind fun _ => (Moves.mapM fun a _ => other a.1).bind fun _ => .pure _

/-- A directive that is applied brings its module in and, as a hook, holds its element. -/
theorem applyDirective_steps (sound : SymbolIndex.Sound ds env.index) (s : Scope)
    (sourceTag tag : String) (isComponent : Bool) (attributes : List Attribute) (b : PropBag)
    {u : DirectiveUse} (registered : env.index.Registered u.symbol) :
    Steps env.index (applyDirective env s sourceTag tag isComponent attributes b u) := by
  unfold applyDirective
  refine .lift_bind fun d is => ?_
  extract_lets p
  split
  · exact (warnAt_steps _ p).bind fun _ => .pure _
  · refine (directiveOptions_steps sound s u attributes).bind fun options => ?_
    have known := ArtifactRef.known_directive sound registered is
    extract_lets rest
    split
    · exact (defaultOf_steps known _).bind fun _ => .pure _
    · split
      · exact (warnAt_steps _ p).bind fun _ => .pure _
      · split
        · exact (warnAt_steps _ p).bind fun _ => .pure _
        · refine (named_steps known _).bind fun _ => ?_
          have used (hostRef : String) : Steps env.index (rest hostRef) :=
            .bind (.modify fun d => .single (.call d _)) fun _ => .pure _
          split
          · exact .bind (.pure _) fun r => used r
          · intro d
            refine (unique_runs _ d).bind fun name d' made => ?_
            obtain ⟨free, rfl⟩ := made
            refine .modify_bind ?_
            have applied : Steps env.index (do
                Converting.react ["useRef"]
                rest (← pure name)) :=
              (react_steps ["useRef"]).bind fun _ => .bind (.pure _) fun r => used r
            exact applied.after (.hold d name _ free)

theorem applyEach_steps (sound : SymbolIndex.Sound ds env.index) (s : Scope)
    (sourceTag tag : String) (isComponent : Bool) (attributes : List Attribute)
    (uses : List DirectiveUse) (registered : ∀ u ∈ uses, env.index.Registered u.symbol) :
    ∀ b, Steps env.index (applyEach env s sourceTag tag isComponent attributes b uses) := by
  induction uses with
  | nil => exact fun b => .pure _
  | cons u us ih =>
      intro b
      unfold applyEach
      refine (applyDirective_steps sound s sourceTag tag isComponent attributes b
        (registered u List.mem_cons_self)).bind fun _ => ?_
      exact (ih (fun v hv => registered v (List.mem_cons_of_mem u hv)) _).bind fun _ => .pure _

theorem wrappedTag_steps (tag : String) (isComponent : Bool) (wrappers : List (String × String)) :
    Steps index (wrappedTag tag isComponent wrappers) := by
  unfold wrappedTag
  split
  · exact .pure _
  · extract_lets
    refine (Moves.modify fun d => ?_).bind fun _ => .pure _
    split
    · exact .refl
    · exact .single (.wrap d _)

theorem addAttribute_steps (sound : SymbolIndex.Sound ds env.index) (s : Scope) (isComponent : Bool)
    (formValue : Option String) (consumed : List String) (e : ElementParts) (attr : Attribute) :
    Steps env.index (addAttribute env s isComponent formValue consumed e attr) := by
  unfold addAttribute
  split
  · exact .pure _
  · cases attr with
    | static name value p =>
        dsimp only
        split
        · exact .pure _
        · split
          · exact .pure _
          · exact (PropBag.static_steps _ _ _ _ _).bind fun _ => .pure _
    | property name expression value p twoWay =>
        refine (boundAt_steps sound s value p).bind fun code => ?_
        split
        · exact .pure _
        · split <;> exact .pure _
    | event name handler p twoWay => exact (ofBinding_steps _ _ _ _ _ _ _ _).bind fun _ => .pure _
    | twoWay name expression p => exact .pure _
    | reference name value p =>
        refine Moves.get.bind fun d => ?_
        split
        · split
          · exact (warnAt_steps _ p).bind fun _ => .pure _
          · exact .pure _
        · exact .pure _
    | directive name expression value p isBound resolved =>
        dsimp only
        split
        · exact .pure _
        · exact (PropBag.builtinDirective_steps sound s _ _ _ _ _ _).bind fun _ => .pure _

theorem applyLink_steps (tag : String) (isComponent : Bool) (e : ElementParts) :
    Steps index (applyLink tag isComponent e) := by
  unfold applyLink
  split
  · exact .pure _
  · split
    · exact (router_steps _).bind fun _ => .pure _
    · split
      · exact (warn_steps _).bind fun _ => .pure _
      · exact (uses_steps _).bind fun _ => .pure _

/-- An element that stands for a component brings the component's module in. -/
theorem elementTag_steps (sound : SymbolIndex.Sound ds env.index) (tag : String)
    {component : Option String} (linked : ∀ name ∈ component, Model.NamesComponent env.index name) :
    Steps env.index (elementTag env tag component) := by
  unfold elementTag
  split
  · rename_i symbol found
    refine (defaultOf_steps ?_ _).bind fun _ => .pure _
    split at found
    · cases component with
      | none => simp [present] at *
      | some name =>
          obtain ⟨s, hs, kind⟩ := linked name rfl
          have same : s = symbol := Option.some.inj (hs.symm.trans found)
          subst same
          exact ArtifactRef.known_component sound (sound.registered_of_lookup found) kind
    · cases found
  · split
    · exact (router_steps _).bind fun _ => .pure _
    · exact .pure _

theorem startTag_steps (sound : SymbolIndex.Sound ds env.index) (s : Scope) (tag : String)
    (attributes : List Attribute) {component : Option String}
    (linked : ∀ name ∈ component, Model.NamesComponent env.index name) :
    Steps env.index (startTag env s tag attributes component) := by
  unfold startTag
  refine (elementTag_steps sound tag linked).bind fun r => .lift_bind fun uses found => ?_
  have registered := directiveUses_registered sound attributes 0 [] uses found
  refine (Moves.foldlM fun e attr _ => addAttribute_steps sound s _ _ _ e attr).bind fun e => ?_
  refine (applyLink_steps _ _ e).bind fun r => ?_
  refine (applyEach_steps sound s _ _ _ _ uses registered _).bind fun r => ?_
  exact (wrappedTag_steps _ _ _).bind fun _ => .pure _

/-! ### Regions -/

theorem withKey_steps (body : Markup) (key : String) : Steps index (withKey body key) := by
  unfold withKey
  extract_lets
  split
  · exact .pure _
  · exact .pure _
  · exact (react_steps _).bind fun _ => .pure _
  · exact (react_steps _).bind fun _ => .pure _

theorem loopHead_steps (sound : SymbolIndex.Sound ds env.index) (s : Scope) (c : Clauses)
    (p : Position) : Steps env.index (loopHead env s c p) := by
  unfold loopHead
  refine (boundAt_steps sound s _ p).bind fun iterable => ?_
  extract_lets item position length start
  refine (Moves.foldlM fun t entry _ => ?_).bind fun names => ?_
  · split
    split
    · exact .pure _
    · split
      · exact .pure _
      · exact (warnAt_steps _ p).bind fun _ => .pure _
  · extract_lets scope rest
    have headed (key : String) : Steps env.index (rest key) := .pure _
    split
    · exact (scopeExpression_steps scope _).bind fun key => headed key
    · exact (Moves.lifted (.warnAt _ _ _ _)).bind fun _ => .bind (.pure _) fun key => headed key

theorem conditionHead_steps (sound : SymbolIndex.Sound ds env.index) (s : Scope) (c : Clauses)
    (p : Position) : Steps env.index (conditionHead env s c p) :=
  (bound_steps sound s _ _ _).bind fun _ => .pure _

/-- A custom structural directive brings its module in. -/
theorem customHead_steps (sound : SymbolIndex.Sound ds env.index) (s : Scope)
    (name directive : String) (c : Clauses) (p : Position) :
    Steps env.index (customHead env s name directive c p) := by
  unfold customHead
  split
  · exact .throw _
  · rename_i symbol found
    refine .lift_bind fun d is => ?_
    have known := ArtifactRef.known_directive sound (sound.registered_of_lookup found) is
    refine (defaultOf_steps known _).bind fun _ => ?_
    extract_lets rest
    have finished (main : List MarkupAttr) : Steps env.index (rest main) := by
      refine (Moves.mapM fun entry _ => ?_).bind fun extra => ?_
      · exact (scopeExpression_steps s _).bind fun _ => .pure _
      · dsimp only
        split
        · exact (warnAt_steps _ p).bind fun _ => .pure _
        · exact .pure _
    split
    · exact .bind (.pure _) fun main => finished main
    · exact (boundAt_steps sound s _ p).bind fun _ => .bind (.pure _) fun main => finished main

theorem contentSlot_steps (attributes : List Attribute) (p : Position) :
    Steps index (contentSlot attributes p) := by
  unfold contentSlot
  extract_lets named
  refine Moves.get.bind fun d => ?_
  split
  · refine (Moves.modify fun d => .single (.noteSlot d)).bind fun _ => ?_
    exact (warnAt_steps _ p).bind fun _ => .pure _
  · exact .pure _

/-- What stands for named templates moves the draft by steps as well. -/
def ContentSteps (index : SymbolIndex) (content : ContentOf) : Prop :=
  ∀ name s p, Steps index (content name s p)

mutual

theorem convertNode_steps (sound : SymbolIndex.Sound ds env.index) {content : ContentOf}
    (templates : ContentSteps env.index content) :
    ∀ (n : Node) (s : Scope) (region : Bool), Model.Linked env.index n →
      Steps env.index (convertNode env content s region n)
  | .text t p, s, region, _ => by
      unfold convertNode
      exact .pure _
  | .interpolation expression value p, s, region, _ => by
      unfold convertNode
      exact (boundAt_steps sound s value p).bind fun _ => .pure _
  | .element tag attributes children p selfClosing component, s, region, linked => by
      simp only [Model.Linked] at linked
      unfold convertNode
      refine (startTag_steps sound s tag attributes linked.1).bind fun start => ?_
      extract_lets rest
      have finished (children : List Markup) : Steps env.index (rest children) :=
        (PropBag.finish_steps _ _).bind fun _ => .pure _
      split
      · refine (convertSwitch_steps sound templates children s _ linked.2).bind fun parts => ?_
        exact .bind (.pure _) fun children => finished children
      · exact (convertNodes_steps sound templates children s linked.2).bind fun _ => finished _
  | .container kind attributes children p, s, region, linked => by
      simp only [Model.Linked] at linked
      have inner := convertNodes_steps sound templates children s linked
      unfold convertNode
      split
      · exact inner.bind fun _ => .pure _
      · split
        · exact (contentSlot_steps attributes p).bind fun _ => .pure _
        · split
          · exact .pure _
          · split
            · exact templates _ s p
            · exact inner.bind fun _ => .pure _
  | .structural name expression clauses child p directive, s, region, linked => by
      simp only [Model.Linked] at linked
      have inner (s : Scope) := convertNode_steps sound templates child s true linked
      unfold convertNode
      split
      · refine (customHead_steps sound s name _ clauses p).bind fun head => ?_
        exact (inner _).bind fun _ => .pure _
      · split
        · refine (conditionHead_steps sound s clauses p).bind fun head => ?_
          obtain ⟨condition, within⟩ := head
          dsimp -zeta only
          extract_lets rest
          have otherwise (shown : Option Markup) : Steps env.index (rest shown) := by
            unfold rest
            extract_lets last
            split
            · exact (templates _ _ p).bind fun _ => .pure _
            · exact .bind (.pure _) fun _ => .pure _
          split
          · exact (templates _ _ p).bind fun _ => otherwise _
          · exact (inner _).bind fun _ => otherwise _
        · split
          · refine (loopHead_steps sound s clauses p).bind fun head => ?_
            refine (inner _).bind fun body => ?_
            exact (withKey_steps _ _).bind fun _ => .pure _
          · split
            · split
              · exact (warnAt_steps _ p).bind fun _ => templates _ s p
              · exact templates _ s p
            · extract_lets rest
              have shown : Steps env.index (rest ()) := (inner s).bind fun _ => .pure _
              split
              · exact (warnAt_steps _ p).bind fun _ => shown
              · exact shown

theorem convertNodes_steps (sound : SymbolIndex.Sound ds env.index) {content : ContentOf}
    (templates : ContentSteps env.index content) :
    ∀ (ns : List Node) (s : Scope), Model.AllLinked env.index ns →
      Steps env.index (convertNodes env content s ns)
  | [], s, _ => by
      unfold convertNodes
      exact .pure _
  | n :: ns, s, linked => by
      simp only [Model.AllLinked] at linked
      unfold convertNodes
      refine (convertNode_steps sound templates n s false linked.1).bind fun first => ?_
      exact (convertNodes_steps sound templates ns s linked.2).bind fun _ => .pure _

theorem convertSwitch_steps (sound : SymbolIndex.Sound ds env.index) {content : ContentOf}
    (templates : ContentSteps env.index content) :
    ∀ (ns : List Node) (s : Scope) (switch : String), Model.AllLinked env.index ns →
      Steps env.index (convertSwitch env content s switch ns)
  | [], s, switch, _ => by
      unfold convertSwitch
      exact .pure _
  | .structural name expression clauses child p directive :: ns, s, switch, linked => by
      simp only [Model.AllLinked, Model.Linked] at linked
      have inner (s : Scope) (region : Bool) :=
        convertNode_steps sound templates child s region linked.1
      have node := convertNode_steps sound templates
        (.structural name expression clauses child p directive) s false (by simpa only [Model.Linked] using linked.1)
      have rest := convertSwitch_steps sound templates ns s switch linked.2
      unfold convertSwitch
      split
      · rename_i h
        cases h
      · rename_i h
        cases h
        refine (boundAt_steps sound s _ _).bind fun value => ?_
        exact (inner _ true).bind fun _ => rest.bind fun _ => .pure _
      · rename_i h
        cases h
        exact (inner _ true).bind fun _ => rest.bind fun _ => .pure _
      · rename_i h
        cases h
        exact node.bind fun _ => rest.bind fun _ => .pure _
  | .text _ _ :: ns, s, switch, linked
  | .interpolation _ _ _ :: ns, s, switch, linked
  | .element _ _ _ _ _ _ :: ns, s, switch, linked
  | .container _ _ _ _ :: ns, s, switch, linked => by
      simp only [Model.AllLinked] at linked
      have rest := convertSwitch_steps sound templates ns s switch linked.2
      unfold convertSwitch
      exact (convertNode_steps sound templates _ s false linked.1).bind fun _ =>
        rest.bind fun _ => .pure _

end

/-! ### Whole templates -/

theorem RefsLinked_children {refs : Table TemplateReference} {name : String} {ref : TemplateReference}
    (linked : Model.RefsLinked index refs) (found : refs.get? name = some ref) :
    Model.AllLinked index ref.children := by
  have node := linked name ref (Table.mem_of_get? found)
  unfold TemplateReference.children
  split
  · rename_i same
    rw [same, Model.Linked] at node
    exact node.2
  · rename_i same
    rw [same, Model.Linked] at node
    exact node
  · simp only [Model.AllLinked]

theorem templateContent_steps (sound : SymbolIndex.Sound ds env.index)
    (refs : Model.RefsLinked env.index env.refs) (n : Nat) :
    ContentSteps env.index (templateContent env n) := by
  have missing (name : Option String) (p : Position) : Steps env.index (noTemplate name p) :=
    (Moves.lifted (.warnAt _ _ _ _)).bind fun _ => .pure _
  induction n with
  | zero => exact fun name s p => .throw _
  | succ n ih =>
      intro name s p
      unfold templateContent
      split
      · rename_i ref found
        split
        · exact (convertNodes_steps sound ih _ s (RefsLinked_children refs found)).bind fun _ => .pure _
        · exact missing name p
      · exact missing name p

/-- Each reference on an element is held by a ref of its own, unless a field holds it. -/
theorem referenceLocals_steps (refs : Table TemplateReference) :
    Steps index (referenceLocals env refs) := by
  induction refs with
  | nil => exact .pure _
  | cons entry rest ih =>
      obtain ⟨name, ref⟩ := entry
      unfold referenceLocals
      extract_lets more referred tag
      have tail (here : List (String × String)) : Steps index (more here) :=
        ih.bind fun _ => .pure _
      have refer (ref : String) : Steps index (referred ref) :=
        .bind (.modify fun d => .single (.refer d _)) fun _ => .bind (.pure _) fun here => tail here
      split
      · exact .bind (.pure _) fun here => tail here
      · exact (warn_steps _).bind fun _ => .bind (.pure _) fun here => tail here
      · split
        · exact .bind (.pure _) fun ref => refer ref
        · refine Moves.get.bind fun _ d => ?_
          refine (unique_runs _ d).bind fun made d' fresh => ?_
          obtain ⟨free, rfl⟩ := fresh
          refine .modify_bind ?_
          have named : Steps index (do Converting.react ["useRef"]; referred (← pure made)) :=
            (react_steps ["useRef"]).bind fun _ => .bind (.pure _) fun ref => refer ref
          exact named.after (.hold d made _ free)

/-- The draft from which a template is converted: all names that the members bring are taken. -/
def Draft.forTemplate (names : RecastContext) (d : Draft) : Draft :=
  { d with taken := names.members ++ names.outputs.values ++ d.body.refs.map (·.name) }

/-- Converting a template takes the names of the members and then moves the draft by steps. -/
theorem convertTemplate_runs (sound : SymbolIndex.Sound ds env.index)
    (refs : Model.RefsLinked env.index env.refs) {template : List Node}
    (linked : Model.AllLinked env.index template) (d : Draft) :
    Runs (convertTemplate env template) d fun _ d' =>
      ReflTransGen (Draft.Step env.index) (d.forTemplate env.names) d' := by
  refine .modify_bind ?_
  refine Moves.bind (referenceLocals_steps env.refs) (fun locals => ?_) (d.forTemplate env.names)
  refine (convertNodes_steps sound (templateContent_steps sound refs _) _ _ linked).bind fun _ => ?_
  exact .pure _

end Elements

end ReactMigration
