import ReactMigration.Proofs.Gathering
import ReactMigration.Proofs.Index

/-!
Converting any part of a template gathers the modules of the classes that the part names, and of
pipes.  It breaks off over templates without end only if the content of a template that the part shows
does.
-/

namespace ReactMigration

open ReactMigration.Template
open ReactMigration.Text (trim)

variable {T : ArtifactRef → Prop} {endless : Prop}

open Converting (warn_gathers warnAt_gathers shared_gathers named_gathers defaultOf_gathers
  react_gathers router_gathers uses_gathers expression_gathers statements_gathers unique_gathers
  modifyBody_gathers)

/-! ### Classes and templates that a template names -/

/-- The classes of the custom directives among attributes. -/
def attributeClasses (attributes : List Attribute) : List String :=
  attributes.filterMap fun
    | .directive _ _ _ _ _ resolved => resolved
    | _ => none

mutual

/-- The classes that a node names: of elements, attributes and structural directives. -/
def nodeClasses : Node → List String
  | .element _ attributes children _ _ component =>
      component.toList ++ attributeClasses attributes ++ templateClasses children
  | .structural _ _ _ child _ directive => directive.toList ++ nodeClasses child
  | .container _ _ children _ => templateClasses children
  | .text .. => []
  | .interpolation .. => []

/-- The classes that nodes name. -/
def templateClasses : List Node → List String
  | [] => []
  | n :: ns => nodeClasses n ++ templateClasses ns

end

mutual

/-- The templates whose content stands in the place of a node; `region` tells that a structural
directive governs it. -/
def nodeShows (region : Bool) : Node → List String
  | .element _ _ children _ _ _ => templateShows children
  | .container kind attributes children _ =>
      if region && (kind == "ng-container" || kind == "ng-template") then templateShows children
      else if kind == "ng-content" || kind == "ng-template" then []
      else
        match outletOf? attributes with
        | some expression => [trim expression]
        | none => templateShows children
  | .structural name _ clauses child _ directive =>
      if directive.isSome then nodeShows true child
      else if name == "ngIf" then
        (if present clauses.thenRef then [clauses.thenRef.getD ""] else nodeShows true child) ++
          (if present clauses.elseRef then [clauses.elseRef.getD ""] else [])
      else if name == "ngTemplateOutlet" then [clauses.expression]
      else nodeShows true child
  | .text .. => []
  | .interpolation .. => []

/-- The templates whose content stands in the place of nodes. -/
def templateShows : List Node → List String
  | [] => []
  | n :: ns => nodeShows false n ++ templateShows ns

end

/-- The modules under which a class is imported may be brought in. -/
def Admits (index : SymbolIndex) (T : ArtifactRef → Prop) (name : String) : Prop :=
  ∀ s, index.lookup name = some s → T (.component s.name s.unit) ∧
    ∀ d, s.declaration.asDirective = .ok d →
      T (.directive d.name s.unit d.directiveKind d.rendersMarkup)

/-- The functions of pipes may be brought in. -/
def AdmitsPipes (index : SymbolIndex) (T : ArtifactRef → Prop) : Prop :=
  ∀ name s d, index.pipe name = some s → s.declaration = .pipe d → T (.pipeFunction d.pipeName s.unit)

/-! ### Bound values -/

namespace Scope

variable {env : TemplateEnv}

theorem scopeExpression_gathers (s : Scope) (text : String) :
    Gathers T endless (s.expression env text) :=
  expression_gathers _ _ _

theorem pipeFunction_gathers (pipes : AdmitsPipes env.index T) (name : String) :
    Gathers T endless (pipeFunction env name) := by
  unfold pipeFunction
  split
  · rename_i function found
    refine (shared_gathers ?_).bind fun _ => .pure _
    refine List.mem_append_right _ (List.mem_map.mpr ⟨function, ?_, rfl⟩)
    exact List.mem_map.mpr ⟨_, Table.mem_of_get? found, rfl⟩
  · split
    · rename_i found
      exact (named_gathers (pipes name _ _ found rfl) _).bind fun _ => .pure _
    · exact .pure _

theorem warnMaybeAt_gathers (message : String) (p : Option Position) :
    Gathers T endless (warnMaybeAt message p) := by
  cases p with
  | some p => exact warnAt_gathers message p
  | none => exact warn_gathers message

theorem await_gathers (s : Scope) (code : String) (preferred : Option String) (p : Option Position) :
    Gathers T endless (s.await code preferred p) := by
  unfold await
  extract_lets locals base
  refine .lift_bind (Script.extractIdentifiers_looksBack code).spared fun names _ => ?_
  split
  · exact (warnMaybeAt_gathers _ p).bind fun _ => .pure _
  · refine Gathers.get.bind fun d => ?_
    split
    · exact .pure _
    · refine (unique_gathers _).bind fun name => ?_
      refine .bind (.modify fun _ => .refl) fun _ => (modifyBody_gathers _).bind fun _ => ?_
      exact (shared_gathers (by decide)).bind fun _ => .pure _

theorem remember_gathers (code function : String) (sources : List String)
    (preferred : Option String) : Gathers T endless (remember code function sources preferred) := by
  have names : Gathers T endless (dependenciesOf sources) :=
    (Gathers.mapM fun s _ => .lift (Script.extractIdentifiers_looksBack s).spared).bind fun _ =>
      .pure _
  unfold remember
  refine Gathers.get.bind fun d => ?_
  split
  · exact .pure _
  · refine names.bind fun deps => (unique_gathers _).bind fun name => ?_
    refine .bind (.modify fun _ => .refl) fun _ => (modifyBody_gathers _).bind fun _ => ?_
    exact (react_gathers).bind fun _ => .pure _

theorem applyPipes_gathers (pipes : AdmitsPipes env.index T) (s : Scope) (preferred : Option String)
    (p : Option Position) (steps : List PipeStep) :
    ∀ progress, Gathers T endless (applyPipes env s preferred p progress steps) := by
  induction steps with
  | nil => exact fun progress => .pure progress
  | cons step steps ih =>
      intro progress
      unfold applyPipes
      refine (Gathers.mapM fun _ _ => scopeExpression_gathers s _).bind fun args => ?_
      split
      · exact (await_gathers s _ _ p).bind fun _ => ih _
      · exact (pipeFunction_gathers pipes step.name).bind fun _ => ih _

theorem bound_gathers (pipes : AdmitsPipes env.index T) (s : Scope) (value : BoundValue)
    (preferred : Option String) (p : Option Position) :
    Gathers T endless (s.bound env value preferred p) := by
  unfold bound
  split
  · exact scopeExpression_gathers s _
  · refine (scopeExpression_gathers s _).bind fun code => ?_
    refine (applyPipes_gathers pipes s preferred p _ _).bind fun result => ?_
    split
    · split
      · exact remember_gathers _ _ _ _
      · exact .pure _
    · exact .pure _

theorem boundAt_gathers (pipes : AdmitsPipes env.index T) (s : Scope) (value : BoundValue)
    (p : Position) : Gathers T endless (s.boundAt env value p) :=
  bound_gathers pipes s value none (some p)

end Scope

open Scope (scopeExpression_gathers bound_gathers boundAt_gathers)

/-! ### Attributes -/

theorem ofBinding_gathers (ctx : RecastContext) (locals : Table String) (name handler : String)
    (p : Position) (twoWay component : Bool) (formValue : Option String) :
    Gathers T endless (Handler.ofBinding ctx locals name handler p twoWay component formValue) := by
  unfold Handler.ofBinding
  split
  split
  · exact (warnAt_gathers _ p).bind fun _ => .pure _
  · extract_lets
    split
    exact (statements_gathers _ _ _).bind fun _ => .pure _

namespace PropBag

variable {env : TemplateEnv}

theorem finish_gathers (b : PropBag) (activeClass : Option String) :
    Gathers T endless (b.finish activeClass) := by
  have joined : Gathers T endless
      (Converting.imports fun i => i.named Support.classNames "classNames") :=
    shared_gathers (by decide)
  have classes : Gathers T endless (b.classAttr activeClass) := by
    unfold classAttr
    extract_lets
    split
    · exact .pure _
    · split
      · exact joined.bind fun _ => .pure _
      · split
        · exact .pure _
        · exact joined.bind fun _ => .pure _
  exact classes.bind fun _ => .pure _

theorem static_gathers (b : PropBag) (name : String) (value : Option String) (p : Position)
    (isComponent : Bool) : Gathers T endless (b.static name value p isComponent) := by
  unfold static
  split
  · exact .pure _
  · extract_lets text prop set rest
    have placed : Gathers T endless (rest ()) := by
      unfold rest
      split
      · exact (warnAt_gathers _ p).bind fun _ => .pure _
      · split
        · exact .pure _
        · split <;> exact .pure _
    split
    · exact (warnAt_gathers _ p).bind fun _ => placed
    · exact placed

theorem directiveValue_gathers (pipes : AdmitsPipes env.index T) (s : Scope)
    (value : Option BoundValue) (p : Position) :
    Gathers T endless (directiveValue env s value p) := by
  unfold directiveValue
  split
  · exact boundAt_gathers pipes s _ p
  · exact .throw nofun

theorem builtinDirective_gathers (pipes : AdmitsPipes env.index T) (s : Scope) (b : PropBag)
    (name : String) (expression : Option String) (value : Option BoundValue) (p : Position)
    (isBound : Bool) :
    Gathers T endless (builtinDirective env s b name expression value p isBound) := by
  unfold builtinDirective
  split
  · split
    · exact (directiveValue_gathers pipes s value p).bind fun _ => .pure _
    · exact .pure _
  · split
    · split
      · exact (directiveValue_gathers pipes s value p).bind fun _ => .pure _
      · exact (warnAt_gathers _ p).bind fun _ => .pure _
    · exact .pure _

end PropBag

/-! ### Custom directives -/

theorem directiveUses_spared (index : SymbolIndex) :
    ∀ (attributes : List Attribute) (position : Nat) (claimed : List String),
      directiveUses index position claimed attributes ≠ .error .endlessTemplate
  | [], _, _, failed => by cases failed
  | attr :: rest, position, claimed, failed => by
      have tail := directiveUses_spared index rest (position + 1)
      unfold directiveUses at failed
      split at failed
      · split at failed
        · rename_i symbol found
          cases names : symbol.declaration.publicNames with
          | error f =>
              rw [names] at failed
              cases failed
              exact symbol.declaration.publicNames_spared names
          | ok pair =>
              rw [names] at failed
              dsimp only [bind, Except.bind] at failed
              split at failed
              · rename_i later
                cases failed
                exact tail _ later
              · cases failed
        · exact tail claimed failed
      · exact tail claimed failed

/-- Every directive that is used was found under a class that an attribute names. -/
theorem directiveUses_found (index : SymbolIndex) :
    ∀ (attributes : List Attribute) (position : Nat) (claimed : List String)
      (uses : List DirectiveUse), directiveUses index position claimed attributes = .ok uses →
      ∀ u ∈ uses, ∃ name ∈ attributeClasses attributes, index.lookup name = some u.symbol
  | [], _, _, uses, h, u, hu => by
      cases h
      cases hu
  | attr :: rest, position, claimed, uses, h, u, hu => by
      have tail (claimed : List String) (uses : List DirectiveUse)
          (later : directiveUses index (position + 1) claimed rest = .ok uses) (hu : u ∈ uses) :
          ∃ name ∈ attributeClasses (attr :: rest), index.lookup name = some u.symbol := by
        obtain ⟨name, named, found⟩ := directiveUses_found index rest _ _ uses later u hu
        exact ⟨name, ((List.sublist_cons_self attr rest).filterMap _).subset named, found⟩
      unfold directiveUses at h
      split at h
      · split at h
        · rename_i found
          obtain ⟨pair, _, h⟩ := ok_of_bind h
          obtain ⟨later, more, h⟩ := ok_of_bind h
          cases h
          rcases List.mem_cons.mp hu with rfl | hu
          · split at found
            · cases found
            · exact ⟨_, by simp [attributeClasses], found⟩
          · exact tail _ later more hu
        · exact tail claimed uses h hu
      · exact tail claimed uses h hu

section Elements

variable {env : TemplateEnv}

theorem directiveOptions_gathers (pipes : AdmitsPipes env.index T) (s : Scope) (u : DirectiveUse)
    (attributes : List Attribute) : Gathers T endless (directiveOptions env s u attributes) := by
  have own : Gathers T endless (ownOption env s u) := by
    unfold ownOption
    split
    · split
      · exact .pure _
      · split
        · exact (PropBag.directiveValue_gathers pipes s _ _).bind fun _ => .pure _
        · split <;> exact .pure _
    · exact .pure _
  have other (attr : Attribute) : Gathers T endless (otherOption env s u attr) := by
    unfold otherOption
    split
    · split <;> exact .pure _
    · split
      · exact (boundAt_gathers pipes s _ _).bind fun _ => .pure _
      · exact .pure _
    · split
      · refine (ofBinding_gathers _ _ _ _ _ _ _ _).bind fun h => ?_
        split <;> exact .pure _
      · exact .pure _
    · exact .pure _
  unfold directiveOptions
  exact own.bind fun _ => (Gathers.mapM fun a _ => other a.1).bind fun _ => .pure _

theorem applyDirective_gathers (pipes : AdmitsPipes env.index T) (s : Scope)
    (sourceTag tag : String) (isComponent : Bool) (attributes : List Attribute) (b : PropBag)
    {u : DirectiveUse} (admitted : ∀ d, u.symbol.declaration.asDirective = .ok d →
      T (.directive d.name u.symbol.unit d.directiveKind d.rendersMarkup)) :
    Gathers T endless (applyDirective env s sourceTag tag isComponent attributes b u) := by
  unfold applyDirective
  refine .lift_bind (Declaration.asDirective_spared _) fun d is => ?_
  extract_lets p
  split
  · exact (warnAt_gathers _ p).bind fun _ => .pure _
  · refine (directiveOptions_gathers pipes s u attributes).bind fun options => ?_
    have allowed := admitted d is
    extract_lets rest
    split
    · exact (defaultOf_gathers allowed _).bind fun _ => .pure _
    · split
      · exact (warnAt_gathers _ p).bind fun _ => .pure _
      · split
        · exact (warnAt_gathers _ p).bind fun _ => .pure _
        · refine (named_gathers allowed _).bind fun _ => ?_
          have used (hostRef : String) : Gathers T endless (rest hostRef) :=
            (modifyBody_gathers _).bind fun _ => .pure _
          split
          · exact .bind (.pure _) fun r => used r
          · refine (unique_gathers _).bind fun name => (modifyBody_gathers _).bind fun _ => ?_
            exact (react_gathers).bind fun _ => .bind (.pure _) fun r => used r

theorem applyEach_gathers (pipes : AdmitsPipes env.index T) (s : Scope) (sourceTag tag : String)
    (isComponent : Bool) (attributes : List Attribute) (uses : List DirectiveUse)
    (admitted : ∀ u ∈ uses, ∀ d, u.symbol.declaration.asDirective = .ok d →
      T (.directive d.name u.symbol.unit d.directiveKind d.rendersMarkup)) :
    ∀ b, Gathers T endless (applyEach env s sourceTag tag isComponent attributes b uses) := by
  induction uses with
  | nil => exact fun b => .pure _
  | cons u us ih =>
      intro b
      unfold applyEach
      refine (applyDirective_gathers pipes s sourceTag tag isComponent attributes b
        (admitted u List.mem_cons_self)).bind fun _ => ?_
      exact (ih (fun v hv => admitted v (List.mem_cons_of_mem u hv)) _).bind fun _ => .pure _

theorem wrappedTag_gathers (tag : String) (isComponent : Bool) (wrappers : List (String × String)) :
    Gathers T endless (wrappedTag tag isComponent wrappers) := by
  unfold wrappedTag
  split
  · exact .pure _
  · extract_lets
    refine .bind (.modify fun d => ?_) fun _ => .pure _
    split <;> exact .refl

theorem addAttribute_gathers (pipes : AdmitsPipes env.index T) (s : Scope) (isComponent : Bool)
    (formValue : Option String) (consumed : List String) (e : ElementParts) (attr : Attribute) :
    Gathers T endless (addAttribute env s isComponent formValue consumed e attr) := by
  unfold addAttribute
  split
  · exact .pure _
  · cases attr with
    | static name value p =>
        dsimp only
        split
        · exact .pure _
        · split
          · exact .pure _
          · exact (PropBag.static_gathers _ _ _ _ _).bind fun _ => .pure _
    | property name expression value p twoWay =>
        refine (boundAt_gathers pipes s value p).bind fun code => ?_
        split
        · exact .pure _
        · split <;> exact .pure _
    | event name handler p twoWay =>
        exact (ofBinding_gathers _ _ _ _ _ _ _ _).bind fun _ => .pure _
    | twoWay name expression p => exact .pure _
    | reference name value p =>
        refine Gathers.get.bind fun d => ?_
        split
        · split
          · exact (warnAt_gathers _ p).bind fun _ => .pure _
          · exact .pure _
        · exact .pure _
    | directive name expression value p isBound resolved =>
        dsimp only
        split
        · exact .pure _
        · exact (PropBag.builtinDirective_gathers pipes s _ _ _ _ _ _).bind fun _ => .pure _

theorem applyLink_gathers (tag : String) (isComponent : Bool) (e : ElementParts) :
    Gathers T endless (applyLink tag isComponent e) := by
  unfold applyLink
  split
  · exact .pure _
  · split
    · refine (router_gathers ?_).bind fun _ => .pure _
      simp only [List.mem_singleton, forall_eq]
      split <;> decide
    · split
      · exact (warn_gathers _).bind fun _ => .pure _
      · exact (uses_gathers _).bind fun _ => .pure _

theorem elementTag_gathers (tag : String) {component : Option String}
    (admitted : ∀ name ∈ component, Admits env.index T name) :
    Gathers T endless (elementTag env tag component) := by
  unfold elementTag
  split
  · rename_i symbol found
    refine (defaultOf_gathers ?_ _).bind fun _ => .pure _
    split at found
    · cases component with
      | none => simp [present] at *
      | some name => exact (admitted name rfl symbol found).1
    · cases found
  · split
    · exact (router_gathers).bind fun _ => .pure _
    · exact .pure _

theorem startTag_gathers (pipes : AdmitsPipes env.index T) (s : Scope) (tag : String)
    (attributes : List Attribute) {component : Option String}
    (admitted : ∀ name ∈ component.toList ++ attributeClasses attributes, Admits env.index T name) :
    Gathers T endless (startTag env s tag attributes component) := by
  unfold startTag
  have named : ∀ name ∈ component, Admits env.index T name := fun name h =>
    admitted name (List.mem_append_left _ (Option.mem_toList.mpr h))
  refine (elementTag_gathers tag named).bind fun r => ?_
  refine .lift_bind (directiveUses_spared env.index attributes 0 []) fun uses found => ?_
  refine (Gathers.foldlM fun e attr _ => addAttribute_gathers pipes s _ _ _ e attr).bind fun e => ?_
  refine (applyLink_gathers _ _ e).bind fun r => ?_
  refine (applyEach_gathers pipes s _ _ _ _ uses (fun u hu d is => ?_) _).bind fun r => ?_
  · obtain ⟨name, mem, looked⟩ := directiveUses_found env.index attributes 0 [] uses found u hu
    exact (admitted name (List.mem_append_right _ mem) u.symbol looked).2 d is
  · exact (wrappedTag_gathers _ _ _).bind fun _ => .pure _

/-! ### Regions -/

theorem withKey_gathers (body : Markup) (key : String) : Gathers T endless (withKey body key) := by
  unfold withKey
  extract_lets
  split
  · exact .pure _
  · exact .pure _
  · exact (react_gathers).bind fun _ => .pure _
  · exact (react_gathers).bind fun _ => .pure _

theorem loopHead_gathers (pipes : AdmitsPipes env.index T) (s : Scope) (c : Clauses) (p : Position) :
    Gathers T endless (loopHead env s c p) := by
  unfold loopHead
  refine (boundAt_gathers pipes s _ p).bind fun iterable => ?_
  extract_lets item position length start
  refine (Gathers.foldlM fun t entry _ => ?_).bind fun names => ?_
  · split
    split
    · exact .pure _
    · split
      · exact .pure _
      · exact (warnAt_gathers _ p).bind fun _ => .pure _
  · extract_lets scope rest
    have headed (key : String) : Gathers T endless (rest key) := .pure _
    split
    · exact (scopeExpression_gathers scope _).bind fun key => headed key
    · exact (Gathers.warnAt _ _ _ _).bind fun _ => .bind (.pure _) fun key => headed key

theorem conditionHead_gathers (pipes : AdmitsPipes env.index T) (s : Scope) (c : Clauses)
    (p : Position) : Gathers T endless (conditionHead env s c p) :=
  (bound_gathers pipes s _ _ _).bind fun _ => .pure _

theorem customHead_gathers (pipes : AdmitsPipes env.index T) (s : Scope) (name : String)
    {directive : String} (admitted : Admits env.index T directive) (c : Clauses) (p : Position) :
    Gathers T endless (customHead env s name directive c p) := by
  unfold customHead
  split
  · exact .throw nofun
  · rename_i symbol found
    refine .lift_bind (Declaration.asDirective_spared _) fun d is => ?_
    refine (defaultOf_gathers ((admitted symbol found).2 d is) _).bind fun _ => ?_
    extract_lets rest
    have finished (main : List MarkupAttr) : Gathers T endless (rest main) := by
      refine (Gathers.mapM fun entry _ => ?_).bind fun extra => ?_
      · exact (scopeExpression_gathers s _).bind fun _ => .pure _
      · dsimp only
        split
        · exact (warnAt_gathers _ p).bind fun _ => .pure _
        · exact .pure _
    split
    · exact .bind (.pure _) fun main => finished main
    · exact (boundAt_gathers pipes s _ p).bind fun _ => .bind (.pure _) fun main => finished main

theorem contentSlot_gathers (attributes : List Attribute) (p : Position) :
    Gathers T endless (contentSlot attributes p) := by
  unfold contentSlot
  extract_lets named
  refine Gathers.get.bind fun d => ?_
  split
  · refine .bind (.modify fun d => .refl) fun _ => ?_
    exact (warnAt_gathers _ p).bind fun _ => .pure _
  · exact .pure _

/-- What stands for the named templates gathers as well. -/
def ContentGathers (T : ArtifactRef → Prop) (endless : Prop) (content : ContentOf)
    (names : List String) : Prop :=
  ∀ name s p, name.getD "" ∈ names → Gathers T endless (content name s p)

theorem ContentGathers.mono {content : ContentOf} {names names' : List String}
    (h : ContentGathers T endless content names) (fewer : names' ⊆ names) :
    ContentGathers T endless content names' :=
  fun name s p mem => h name s p (fewer mem)

mutual

theorem convertNode_gathers (pipes : AdmitsPipes env.index T) {content : ContentOf} :
    ∀ (n : Node) (s : Scope) (region : Bool), (∀ c ∈ nodeClasses n, Admits env.index T c) →
      ContentGathers T endless content (nodeShows region n) →
      Gathers T endless (convertNode env content s region n)
  | .text t p, s, region, _, _ => by
      unfold convertNode
      exact .pure _
  | .interpolation expression value p, s, region, _, _ => by
      unfold convertNode
      exact (boundAt_gathers pipes s value p).bind fun _ => .pure _
  | .element tag attributes children p selfClosing component, s, region, admitted, shown => by
      simp only [nodeClasses, nodeShows] at admitted shown
      have inside : ∀ c ∈ templateClasses children, Admits env.index T c := fun c hc =>
        admitted c (List.mem_append_right _ hc)
      unfold convertNode
      refine (startTag_gathers pipes s tag attributes fun c hc =>
        admitted c (List.mem_append_left _ hc)).bind fun start => ?_
      extract_lets rest
      have finished (children : List Markup) : Gathers T endless (rest children) :=
        (PropBag.finish_gathers _ _).bind fun _ => .pure _
      split
      · refine (convertSwitch_gathers pipes children s _ inside shown).bind fun parts => ?_
        exact .bind (.pure _) fun children => finished children
      · exact (convertNodes_gathers pipes children s inside shown).bind fun _ => finished _
  | .container kind attributes children p, s, region, admitted, shown => by
      simp only [nodeClasses] at admitted
      have inner (shown : ContentGathers T endless content (templateShows children)) :=
        convertNodes_gathers pipes children s admitted shown
      unfold nodeShows at shown
      unfold convertNode
      split
      · rename_i grouped
        rw [if_pos grouped] at shown
        exact (inner shown).bind fun _ => .pure _
      · rename_i single
        rw [if_neg single] at shown
        split
        · exact (contentSlot_gathers attributes p).bind fun _ => .pure _
        · rename_i slot
          split
          · exact .pure _
          · rename_i template
            rw [if_neg (by simp_all)] at shown
            split
            · rename_i outlet
              rw [outlet] at shown
              exact shown _ s p (List.mem_singleton.mpr rfl)
            · rename_i outlet
              rw [outlet] at shown
              exact (inner shown).bind fun _ => .pure _
  | .structural name expression clauses child p directive, s, region, admitted, shown => by
      simp only [nodeClasses] at admitted
      have inner (s : Scope) (shown : ContentGathers T endless content (nodeShows true child)) :=
        convertNode_gathers pipes child s true (fun c hc => admitted c (List.mem_append_right _ hc)) shown
      unfold nodeShows at shown
      unfold convertNode
      split
      · rename_i directive
        refine (customHead_gathers pipes s name (admitted directive (by simp)) clauses p).bind
          fun head => ?_
        exact (inner _ shown).bind fun _ => .pure _
      · rw [if_neg (by simp)] at shown
        split
        · rename_i condition
          rw [if_pos condition] at shown
          refine (conditionHead_gathers pipes s clauses p).bind fun head => ?_
          obtain ⟨condition, within⟩ := head
          dsimp -zeta only
          extract_lets rest
          have otherwise (region : Option Markup) : Gathers T endless (rest region) := by
            unfold rest
            extract_lets last
            split
            · rename_i named
              rw [if_pos named] at shown
              exact (shown _ _ p (by simp)).bind fun _ => .pure _
            · exact .bind (.pure _) fun _ => .pure _
          have first := shown.mono (List.subset_append_left _ _)
          split
          · rename_i named
            rw [if_pos named] at first
            exact (first _ _ p (by simp)).bind fun _ => otherwise _
          · rename_i unnamed
            rw [if_neg unnamed] at first
            exact (inner _ first).bind fun _ => otherwise _
        · rename_i condition
          rw [if_neg condition] at shown
          split
          · rename_i loop
            rw [if_neg (by rintro outlet; simp_all)] at shown
            refine (loopHead_gathers pipes s clauses p).bind fun head => ?_
            refine (inner _ shown).bind fun body => ?_
            exact (withKey_gathers _ _).bind fun _ => .pure _
          · split
            · rename_i outlet
              rw [if_pos outlet] at shown
              have content := shown (some clauses.expression) s p (by simp)
              split
              · exact (warnAt_gathers _ p).bind fun _ => content
              · exact content
            · rename_i outlet
              rw [if_neg outlet] at shown
              extract_lets rest
              have shown : Gathers T endless (rest ()) := (inner s shown).bind fun _ => .pure _
              split
              · exact (warnAt_gathers _ p).bind fun _ => shown
              · exact shown

theorem convertNodes_gathers (pipes : AdmitsPipes env.index T) {content : ContentOf} :
    ∀ (ns : List Node) (s : Scope), (∀ c ∈ templateClasses ns, Admits env.index T c) →
      ContentGathers T endless content (templateShows ns) →
      Gathers T endless (convertNodes env content s ns)
  | [], s, _, _ => by
      unfold convertNodes
      exact .pure _
  | n :: ns, s, admitted, shown => by
      simp only [templateClasses, templateShows, List.forall_mem_append] at admitted shown
      have first := convertNode_gathers pipes n s false admitted.1
        (shown.mono (List.subset_append_left _ _))
      have rest := convertNodes_gathers pipes ns s admitted.2
        (shown.mono (List.subset_append_right _ _))
      unfold convertNodes
      exact first.bind fun _ => rest.bind fun _ => .pure _

theorem convertSwitch_gathers (pipes : AdmitsPipes env.index T) {content : ContentOf} :
    ∀ (ns : List Node) (s : Scope) (switch : String),
      (∀ c ∈ templateClasses ns, Admits env.index T c) →
      ContentGathers T endless content (templateShows ns) →
      Gathers T endless (convertSwitch env content s switch ns)
  | [], s, switch, _, _ => by
      unfold convertSwitch
      exact .pure _
  | .structural name expression clauses child p directive :: ns, s, switch, admitted, shown => by
      simp only [templateClasses, templateShows, List.forall_mem_append] at admitted shown
      have here := shown.mono (List.subset_append_left _ _)
      have node := convertNode_gathers pipes (.structural name expression clauses child p directive) s
        false admitted.1 here
      have rest := convertSwitch_gathers pipes ns s switch admitted.2
        (shown.mono (List.subset_append_right _ _))
      -- a case or a default shows what its child shows, whether or not a directive has its name
      have inner (s : Scope) (case : name = "ngSwitchCase" ∨ name = "ngSwitchDefault") :
          Gathers T endless (convertNode env content s true child) := by
        refine convertNode_gathers pipes child s true (fun c hc => admitted.1 c ?_) ?_
        · simp [nodeClasses, hc]
        · rcases case with rfl | rfl <;> simpa [nodeShows] using here
      unfold convertSwitch
      split
      · rename_i h
        cases h
      · rename_i h
        cases h
        refine (boundAt_gathers pipes s _ _).bind fun value => ?_
        exact (inner _ (.inl rfl)).bind fun _ => rest.bind fun _ => .pure _
      · rename_i h
        cases h
        exact (inner _ (.inr rfl)).bind fun _ => rest.bind fun _ => .pure _
      · rename_i h
        cases h
        exact node.bind fun _ => rest.bind fun _ => .pure _
  | .text _ _ :: ns, s, switch, admitted, shown
  | .interpolation _ _ _ :: ns, s, switch, admitted, shown
  | .element _ _ _ _ _ _ :: ns, s, switch, admitted, shown
  | .container _ _ _ _ :: ns, s, switch, admitted, shown => by
      simp only [templateClasses, templateShows, List.forall_mem_append] at admitted shown
      have first := convertNode_gathers pipes _ s false admitted.1
        (shown.mono (List.subset_append_left _ _))
      have rest := convertSwitch_gathers pipes ns s switch admitted.2
        (shown.mono (List.subset_append_right _ _))
      unfold convertSwitch
      exact first.bind fun _ => rest.bind fun _ => .pure _

end

/-! ### Whole templates -/

theorem noTemplate_gathers (name : Option String) (p : Position) :
    Gathers T endless (noTemplate name p) :=
  (Gathers.warnAt _ _ _ _).bind fun _ => .pure _

theorem referenceLocals_gathers (refs : Table TemplateReference) :
    Gathers T endless (referenceLocals env refs) := by
  induction refs with
  | nil => exact .pure _
  | cons entry rest ih =>
      obtain ⟨name, ref⟩ := entry
      unfold referenceLocals
      extract_lets more referred tag
      have tail (here : List (String × String)) : Gathers T endless (more here) :=
        ih.bind fun _ => .pure _
      have refer (ref : String) : Gathers T endless (referred ref) :=
        .bind (.modify fun d => .refl) fun _ => .bind (.pure _) fun here => tail here
      split
      · exact .bind (.pure _) fun here => tail here
      · exact (warn_gathers _).bind fun _ => .bind (.pure _) fun here => tail here
      · split
        · exact .bind (.pure _) fun ref => refer ref
        · refine Gathers.get.bind fun _ => (unique_gathers _).bind fun made => ?_
          refine (modifyBody_gathers _).bind fun _ => ?_
          exact (react_gathers).bind fun _ => .bind (.pure _) fun ref => refer ref

theorem templateClasses_children (ref : TemplateReference) :
    templateClasses ref.children ⊆ nodeClasses ref.node := by
  unfold TemplateReference.children
  split
  · rename_i same
    rw [same, nodeClasses]
    exact List.subset_append_right _ _
  · rename_i same
    rw [same, nodeClasses]
    exact List.Subset.refl _
  · simp [templateClasses]

theorem templateContent_gathers (pipes : AdmitsPipes env.index T)
    (admitted : ∀ entry ∈ env.refs, ∀ c ∈ nodeClasses entry.2.node, Admits env.index T c) :
    ∀ (n : Nat) (name : Option String) (s : Scope) (p : Position),
      Gathers T True (templateContent env n name s p)
  | 0, _, _, _ => .throw fun _ => trivial
  | n + 1, name, s, p => by
      unfold templateContent
      split
      · rename_i ref found
        split
        · have inside : ∀ c ∈ templateClasses ref.children, Admits env.index T c := fun c hc =>
            admitted _ (Table.mem_of_get? found) c (templateClasses_children ref hc)
          refine (convertNodes_gathers pipes _ s inside fun name s p _ => ?_).bind fun _ => .pure _
          exact templateContent_gathers pipes admitted n name s p
        · exact noTemplate_gathers name p
      · exact noTemplate_gathers name p

/-- Converting a template gathers the modules of the classes that it and the templates it refers to
name. -/
theorem convertTemplate_gathers (pipes : AdmitsPipes env.index T)
    (referred : ∀ entry ∈ env.refs, ∀ c ∈ nodeClasses entry.2.node, Admits env.index T c)
    {template : List Node} (admitted : ∀ c ∈ templateClasses template, Admits env.index T c) :
    Gathers T True (convertTemplate env template) := by
  refine .bind (.modify fun _ => .refl) fun _ => ?_
  refine (referenceLocals_gathers env.refs).bind fun locals => ?_
  refine (convertNodes_gathers pipes _ _ admitted fun name s p _ => ?_).bind fun _ => .pure _
  exact templateContent_gathers pipes referred _ name s p

end Elements

end ReactMigration
